import FryFirmware.Lib.Machine
import FryFirmware.Relay.Slot
import Mathlib.Algebra.Ring.Nat

/-!
# The name cache

`lib/fry_core/relay_dns.h`: a small host-keyed cache of addresses and failures
with wrap-safe expiry and least-recently-used eviction. Hosts are the contents
of C strings.
-/

set_option autoImplicit false

namespace FryFirmware.Dns

open Lib

abbrev Host := List UInt8

def kDnsCacheEntries : Nat := 4

/-- Capacity of a host array, its terminator included. -/
def kDnsHostCap : Nat := 256

def dnsFoldChar (c : UInt8) : UInt8 :=
  if 65 ≤ c ∧ c ≤ 90 then c - 65 + 97 else c

def dnsHostEq : Host → Host → Bool
  | a :: as, b :: bs => if dnsFoldChar a ≠ dnsFoldChar b then false else dnsHostEq as bs
  | [], [] => true
  | _ :: _, [] => false
  | [], _ :: _ => false

def nonnegative (value : UInt32) : Bool := value.toNat < 2 ^ 31

def dnsReached (now due : UInt32) : Bool := nonnegative (now - due)

structure DnsCacheEntry where
  host : Host := []
  ip : UInt32 := 0
  storedMs : UInt32 := 0
  ttlMs : UInt32 := 0
  usedMs : UInt32 := 0
  valid : Bool := false
  deriving DecidableEq, Repr

def DnsCacheEntry.expired (e : DnsCacheEntry) (now : UInt32) : Bool :=
  dnsReached now (e.storedMs + e.ttlMs)

abbrev DnsCache := Fin kDnsCacheEntries → DnsCacheEntry

namespace DnsCache

/-- The entry holds an unexpired value for `host`. -/
def holds (e : DnsCacheEntry) (host : Host) (now : UInt32) : Bool :=
  e.valid && !e.expired now && dnsHostEq e.host host

def find (cache : DnsCache) (host : Host) (now : UInt32) : Option (Fin kDnsCacheEntries) :=
  if host = [] then none
  else (List.finRange kDnsCacheEntries).find? fun i => holds (cache i) host now

def lookup (cache : DnsCache) (host : Host) (now : UInt32) : DnsCache × Option UInt32 :=
  match find cache host now with
  | none => (cache, none)
  | some i =>
      if (cache i).ip = 0 then (cache, none)
      else (Function.update cache i { cache i with usedMs := now }, some (cache i).ip)

def blocked (cache : DnsCache) (host : Host) (now : UInt32) : Bool :=
  if host = [] then false
  else
    match (List.finRange kDnsCacheEntries).find? fun i => holds (cache i) host now with
    | none => false
    | some i => (cache i).ip = 0

def lru (cache : DnsCache) : Fin kDnsCacheEntries :=
  (List.finRange kDnsCacheEntries).tail.foldl
    (fun lru i => if nonnegative ((cache i).usedMs - (cache lru).usedMs) then lru else i)
    ⟨0, by decide⟩

/-- The entry `put` overwrites: the one of the same name, else a free or expired
one, else the least recently used. -/
def victim (cache : DnsCache) (host : Host) (now : UInt32) : Fin kDnsCacheEntries :=
  match (List.finRange kDnsCacheEntries).find? fun i =>
      (cache i).valid && dnsHostEq (cache i).host host with
  | some i => i
  | none =>
      match (List.finRange kDnsCacheEntries).find? fun i =>
          !(cache i).valid || (cache i).expired now with
      | some i => i
      | none => lru cache

def put (cache : DnsCache) (host : Host) (ip now ttlMs : UInt32) : DnsCache :=
  if host = [] then cache
  else if host.length ≥ kDnsHostCap then cache
  else
    Function.update cache (victim cache host now)
      { host := host.map dnsFoldChar, ip, storedMs := now, ttlMs, usedMs := now, valid := true }

def store (cache : DnsCache) (host : Host) (ip now ttlMs : UInt32) : DnsCache :=
  if ip = 0 then cache else put cache host ip now ttlMs

def storeFailure (cache : DnsCache) (host : Host) (now ttlMs : UInt32) : DnsCache :=
  put cache host 0 now ttlMs

end DnsCache

end FryFirmware.Dns
