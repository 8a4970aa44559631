import FryFirmware.Identity.KeyPolicy
import FryFirmware.Improv.CodecProperties
import FryFirmware.Provisioning.Fsm

/-!
# The answers to the two vendor commands

0xF0 and 0xF1 of `lib/fry_core/improv_serial.cpp`, with `DeviceStatus`. A client
always gets one: no verdict and no status outgrows the packet buffer.
-/

set_option autoImplicit false

namespace FryFirmware.Improv

open Lib Config Identity Provisioning

def frySetMinerKey : UInt8 := 0xF0
def fryGetStatus : UInt8 := 0xF1

/-- The strings of the 0xF0 result. -/
def keyWriteStrings (verdict : KeyWriteVerdict) (maskedKey : CString) : List (List UInt8) :=
  if verdict = .accept then [text "ok", maskedKey.getD []]
  else
    let reason :=
      if verdict = .storeFailed then "store_failed"
      else if verdict = .badKey then "bad_key"
      else "key_locked"
    let code := if verdict = .badKey then "7" else "8"
    [text "err", text code, text reason]

def encodeKeyWriteResult {outCap : Nat} (verdict : KeyWriteVerdict) (maskedKey : CString)
    (out : Option (Memory UInt8 outCap)) : Option (Nat × Option (Memory UInt8 outCap)) :=
  encodeRpcResult frySetMinerKey ((keyWriteStrings verdict maskedKey).map some) out

def stateCode : ProvState → Nat
  | .idle => 0
  | .provisioning => 1
  | .connecting => 2
  | .connected => 3
  | .error => 4

def errCode : ProvErr → Nat
  | .none => 0
  | .badSsid => 1
  | .wifiAuth => 2
  | .noIp => 3
  | .apiFail => 4
  | .badWallet => 5
  | .keyRequired => 6
  | .badKey => 7
  | .keyLocked => 8
  | .reg401 => 9
  | .reg403 => 10
  | .reg409 => 11
  | .regOther4xx => 12
  | .unreachable => 13

/-- What clients older than the detail codes are told. -/
def legacyProvErr (e : ProvErr) : Nat :=
  if errCode e < errCode .keyRequired then errCode e else errCode .apiFail

/-- What a board reports about itself. -/
structure DeviceStatus where
  state : ProvState := .idle
  err : ProvErr := .none
  keySet : Bool := false
  keyMasked : List UInt8 := []
  masked : keyMasked.length < 12 := by decide
  regHttp : Int32 := 0
  hbAgeS : Int32 := -1
  fw : CString := some []
  ota : CString := some (text "valid")
  apCode : CString := some []

def statusLegacyErr (s : DeviceStatus) : Nat :=
  if s.state = .error then legacyProvErr s.err else 0

def statusDetailErr (s : DeviceStatus) : Nat := if s.state = .error then errCode s.err else 0

/-- `snprintf` of a number into `size` bytes: what does not fit before the NUL is cut. -/
def snprintf (size : Nat) (number : Int) : List UInt8 := (text (toString number)).take (size - 1)

/-- The strings of the 0xF1 result. -/
def statusStrings (status : DeviceStatus) : List (List UInt8) :=
  [text "1",
    snprintf 4 (stateCode status.state),
    snprintf 4 (statusLegacyErr status),
    snprintf 4 (statusDetailErr status),
    if status.keySet then text "1" else text "0",
    status.keyMasked,
    status.fw.getD [],
    snprintf 12 status.regHttp.toInt,
    snprintf 12 status.hbAgeS.toInt,
    status.ota.getD [],
    status.apCode.getD []]

def encodeFryStatus {outCap : Nat} (status : DeviceStatus) (out : Option (Memory UInt8 outCap)) :
    Option (Nat × Option (Memory UInt8 outCap)) :=
  encodeRpcResult fryGetStatus ((statusStrings status).map some) out

/-! ## An answer for every outcome -/

/-- The client reads the verdict and, of an accepted key, its mask. -/
theorem encodeKeyWriteResult_answers (verdict : KeyWriteVerdict) (maskedKey : CString)
    (masked : (maskedKey.getD []).length ≤ 11) (buffer : Memory UInt8 kMaxPacket) :
    ∃ n after, encodeKeyWriteResult verdict maskedKey (some buffer) = some (n, some after) ∧
      decodeRpcResult (after.window 0 n) =
        some (frySetMinerKey, keyWriteStrings verdict maskedKey) := by
  have fits : 2 + (encoded (keyWriteStrings verdict maskedKey)).length ≤ kMaxPayload := by
    cases verdict with
    | accept =>
        simp [keyWriteStrings, encoded, text, kMaxPayload]
        omega
    | _ => simp [keyWriteStrings, encoded, text, kMaxPayload]
  exact encodeRpcResult_answers frySetMinerKey fits buffer

theorem length_snprintf (size : Nat) (number : Int) : (snprintf size number).length ≤ size - 1 := by
  rw [snprintf, List.length_take]
  exact Nat.min_le_left _ _

theorem fits_statusStrings (status : DeviceStatus)
    (short : (status.fw.getD []).length + (status.ota.getD []).length +
      (status.apCode.getD []).length ≤ 71) :
    2 + (encoded (statusStrings status)).length ≤ kMaxPayload := by
  have state := length_snprintf 4 (stateCode status.state)
  have legacy := length_snprintf 4 (statusLegacyErr status)
  have detail := length_snprintf 4 (statusDetailErr status)
  have reg := length_snprintf 12 status.regHttp.toInt
  have hb := length_snprintf 12 status.hbAgeS.toInt
  have masked := status.masked
  have flag : (if status.keySet then text "1" else text "0").length = 1 := by
    split <;> rfl
  have version : (text "1").length = 1 := rfl
  simp only [encoded, statusStrings, List.flatMap_cons, List.flatMap_nil, List.length_append,
    List.length_cons, List.length_nil, flag, version, kMaxPayload]
  omega

/-- The client reads every field, unless version, image state and setup code take more
than 71 bytes together. -/
theorem encodeFryStatus_answers (status : DeviceStatus) (buffer : Memory UInt8 kMaxPacket)
    (short : (status.fw.getD []).length + (status.ota.getD []).length +
      (status.apCode.getD []).length ≤ 71) :
    ∃ n after, encodeFryStatus status (some buffer) = some (n, some after) ∧
      decodeRpcResult (after.window 0 n) = some (fryGetStatus, statusStrings status) :=
  encodeRpcResult_answers fryGetStatus (fits_statusStrings status short) buffer

end FryFirmware.Improv
