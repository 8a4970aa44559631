import FryFirmware.Config.Store
import FryFirmware.Lib.JsonTextProperties
import Mathlib.Data.List.Basic
import Mathlib.Tactic.Common

/-!
# The captive portal's scan answer

`handleScan` of `src/esp8266/wifi_provisioning.cpp`, the answer to `GET /api/scan`. The
page behind it calls `r.json()` on the body, so one body that is no JSON hides every
network.
-/

set_option autoImplicit false

namespace FryFirmware.Provisioning

open FryFirmware.Config (Text text)
open FryFirmware.Lib FryFirmware.Lib.JsonText
open Lib.Json (numberText trueText falseText)

/-- An entry of the scan cache. -/
structure Net where
  ssid : Text
  rssi : Int32
  enc : Bool
  deriving DecidableEq, Repr

def netText (net : Net) : Text :=
  text "\x7b\"ssid\":\"" ++ net.ssid ++ text "\",\"rssi\":" ++ numberText net.rssi.toInt ++
    text ",\"enc\":" ++ (if net.enc then trueText else falseText) ++ text "\x7d"

/-- The loop of `handleScan`, from entry `i`. -/
def scanBody (out : Text) (i : Nat) : List Net → Text
  | [] => out
  | net :: nets => scanBody (out ++ (if i = 0 then [] else text ",") ++ netText net) (i + 1) nets

def handleScan (scanCache : Option (List Net)) : Text :=
  scanBody (text "\x7b\"nets\":[") 0 (scanCache.getD []) ++ text "]\x7d"

/-! ## What a reader makes of it -/

/-- Name, signal and lock of one network of the answer. -/
def decodeNet (tree : Tree) : Option (Text × Int × Bool) :=
  ((tree.field (text "ssid")).bind Tree.bytes?).bind fun ssid =>
    ((tree.field (text "rssi")).bind Tree.integer?).bind fun rssi =>
      ((tree.field (text "enc")).bind Tree.bool?).map fun enc => (ssid, rssi, enc)

def decodeNets (tree : Tree) : Option (List (Text × Int × Bool)) :=
  ((tree.field (text "nets")).bind Tree.items?).bind fun items => items.mapM decodeNet

def Net.shown (net : Net) : Text × Int × Bool := (net.ssid, net.rssi.toInt, net.enc)

/-- The body is JSON, and its `nets` are these networks. -/
def ScanReads (body : Text) (nets : List Net) : Prop :=
  ∃ tree, read body = some tree ∧ decodeNets tree = some (nets.map Net.shown)

/-! ## Plain names -/

theorem scanBody_eq (out : Text) (i : Nat) (nets : List Net) :
    scanBody out i nets = out ++ (if i = 0 ∨ nets = [] then [] else [44]) ++
      [44].intercalate (nets.map netText) := by
  induction nets generalizing out i with
  | nil => simp [scanBody]
  | cons net nets ih =>
      rw [scanBody, ih]
      cases nets with
      | nil => simp; rfl
      | cons second nets => simp; rfl

theorem handleScan_eq (nets : List Net) : handleScan (some nets) =
    text "\x7b\"nets\":[" ++ [44].intercalate (nets.map netText) ++ text "]\x7d" := by
  rw [handleScan, Option.getD_some, scanBody_eq]
  simp

def netTree (net : Net) : Tree :=
  .object [(symbols (text "ssid"), .string (symbols net.ssid)),
    (symbols (text "rssi"), .number net.rssi.toInt 0), (symbols (text "enc"), .bool net.enc)]

theorem decodeNet_netTree (net : Net) : decodeNet (netTree net) = some net.shown := by
  have ssid : (netTree net).field (text "ssid") = some (.string (symbols net.ssid)) := rfl
  have rssi : (netTree net).field (text "rssi") = some (.number net.rssi.toInt 0) := rfl
  have enc : (netTree net).field (text "enc") = some (.bool net.enc) := rfl
  simp only [decodeNet, ssid, rssi, enc, Option.bind_some, bytes?_symbols, integer?_number, Tree.bool?,
    Option.map_some, Net.shown]

theorem writes_net {net : Net} (plain : Plain net.ssid) : Writes 2 (netText net) (netTree net) := by
  refine Writes.object_text
    [(text "ssid", 34 :: net.ssid ++ [34], .string (symbols net.ssid)),
      (text "rssi", numberText net.rssi.toInt, .number net.rssi.toInt 0),
      (text "enc", if net.enc then trueText else falseText, .bool net.enc)] ?_ ?_ ?_
  · simp only [netText, List.map_cons, List.map_nil, List.intercalate_cons_cons,
      List.intercalate_singleton, List.append_assoc, List.cons_append]
    rfl
  · simp only [List.forall_mem_cons]
    exact ⟨by decide, by decide, by decide, nofun⟩
  · simp only [List.forall_mem_cons]
    exact ⟨.string plain, .integer _, .bool _, nofun⟩

def scanTree (nets : List Net) : Tree := .object [(symbols (text "nets"), .array (nets.map netTree))]

theorem writes_scan {nets : List Net} (plain : ∀ net ∈ nets, Plain net.ssid) :
    Writes 4 (handleScan (some nets)) (scanTree nets) := by
  have items := @Writes.array 2 (nets.map fun net => (netText net, netTree net)) (by
    intro item known
    obtain ⟨net, member, rfl⟩ := List.mem_map.mp known
    exact writes_net (plain net member))
  simp only [List.map_map, Function.comp_def] at items
  refine Writes.object_text
    [(text "nets", 91 :: [44].intercalate (nets.map netText) ++ [93], .array (nets.map netTree))] ?_ ?_ ?_
  · rw [handleScan_eq]
    simp only [List.map_cons, List.map_nil, List.intercalate_singleton, List.append_assoc,
      List.cons_append]
    rfl
  · simp only [List.forall_mem_cons]
    exact ⟨by decide, nofun⟩
  · simp only [List.forall_mem_cons]
    exact ⟨items, nofun⟩

theorem scanReads_of_plain {nets : List Net} (plain : ∀ net ∈ nets, Plain net.ssid) :
    ScanReads (handleScan (some nets)) nets := by
  have deep : 4 ≤ (handleScan (some nets)).length := by
    rw [handleScan_eq, List.length_append, List.length_append]
    exact Nat.le_trans (by decide : 4 ≤ (text "\x7b\"nets\":[").length) (by omega)
  refine ⟨scanTree nets, read_of_writes (writes_scan plain) deep, ?_⟩
  have field : (scanTree nets).field (text "nets") = some (.array (nets.map netTree)) := rfl
  rw [decodeNets, field, Option.bind_some, Tree.items?, Option.bind_some]
  refine mapM_iff.mpr ?_
  simp only [List.forall₂_map_left_iff, List.forall₂_map_right_iff]
  exact List.forall₂_same.mpr fun net _ => decodeNet_netTree net

/-! ## Names that need an escape -/

/-- A network that is read as it was put in has a plain name. -/
theorem net_plain {net : Net} {depth : Nat} {after rest : Text} {tree : Tree}
    (done : readValue depth (netText net ++ after) = some (tree, rest))
    (same : decodeNet tree = some net.shown) : Plain net.ssid := by
  have whole : netText net ++ after = 123 :: 34 :: text "ssid" ++ 34 :: 58 :: (34 :: (net.ssid ++
      34 :: 44 :: 34 :: (text "rssi\":" ++ (numberText net.rssi.toInt ++ (text ",\"enc\":" ++
        ((if net.enc then trueText else falseText) ++ 125 :: after)))))) := by
    simp only [netText, List.append_assoc]
    rfl
  rw [whole] at done
  obtain ⟨less, value, others, behind, -, read, rfl, byte, tail, ends, token⟩ :=
    readValue_object (by decide) done
  obtain ⟨content, here, rfl⟩ := readValue_string read
  obtain ⟨ssid, named, decoded⟩ := Option.bind_eq_some_iff.mp same
  obtain ⟨found, field, bytes⟩ := Option.bind_eq_some_iff.mp named
  obtain rfl := field_first field
  obtain rfl := bytes?_some bytes
  have shown : ssid = net.ssid := by
    obtain ⟨rssi, -, decoded⟩ := Option.bind_eq_some_iff.mp decoded
    obtain ⟨enc, -, decoded⟩ := Option.map_eq_some_iff.mp decoded
    exact congrArg Prod.fst decoded
  rcases readString_cases here with ⟨plain, -, -⟩ | shorter | rfl
  · exact plain
  · rw [symbols, List.length_map, shown] at shorter
    exact absurd shorter (Nat.lt_irrefl _)
  · -- The reader stands in front of the name `rssi`, where no token can be.
    have letter : (text "rssi\":" ++ (numberText net.rssi.toInt ++ (text ",\"enc\":" ++
        ((if net.enc then trueText else falseText) ++ 125 :: after)))).dropWhile isBlank =
          114 :: (text "ssi\":" ++ (numberText net.rssi.toInt ++ (text ",\"enc\":" ++
            ((if net.enc then trueText else falseText) ++ 125 :: after)))) := rfl
    rw [letter] at ends
    obtain ⟨rfl, -⟩ := List.cons.inj ends
    rcases token with odd | odd <;> cases odd

/-- The networks of a list that is read as it was put in have plain names. -/
theorem items_plain {nets : List Net} {depth limit : Nat} {after rest : Text} {items : List Tree}
    (deep : 2 ≤ depth)
    (done : readItems (readValue depth) 93 limit ([44].intercalate (nets.map netText) ++ after) =
      some (items, rest))
    (same : items.mapM decodeNet = some (nets.map Net.shown)) : ∀ net ∈ nets, Plain net.ssid := by
  induction nets generalizing limit items with
  | nil => nofun
  | cons net nets ih =>
      obtain ⟨first, others, behind, read, rfl, next⟩ := readItems_first done
      obtain ⟨here, later⟩ := List.forall₂_cons.mp (mapM_iff.mp same)
      cases nets with
      | nil =>
          simp only [List.map_cons, List.map_nil, List.intercalate_singleton] at read
          exact List.forall_mem_singleton.mpr (net_plain read here)
      | cons second nets =>
          rw [List.map_cons, List.map_cons, List.intercalate_cons_cons, ← List.map_cons,
            List.append_assoc, List.append_assoc, List.singleton_append] at read
          have plain := net_plain read here
          have known := ((writes_net plain).mono deep).reads
            (44 :: ([44].intercalate ((second :: nets).map netText) ++ after)) (by
              rintro _ ⟨⟩
              exact .inl rfl)
          rw [known] at read
          cases read
          rcases next with ⟨tail, less, comma, further⟩ | closes
          · cases comma
            exact List.forall_mem_cons.mpr ⟨plain, ih further (mapM_iff.mpr later)⟩
          · cases closes

theorem plain_of_scanReads {nets : List Net} (reads : ScanReads (handleScan (some nets)) nets) :
    ∀ net ∈ nets, Plain net.ssid := by
  obtain ⟨tree, done, same⟩ := reads
  obtain ⟨rest, read⟩ := readValue_of_read done
  have whole : handleScan (some nets) = 123 :: 34 :: text "nets" ++ 34 :: 58 ::
      (91 :: ([44].intercalate (nets.map netText) ++ text "]\x7d")) := by
    rw [handleScan_eq]
    simp only [List.append_assoc]
    rfl
  have long : 4 ≤ (handleScan (some nets)).length := by
    rw [whole, List.length_append]
    exact Nat.le_trans (by decide : 4 ≤ (123 :: 34 :: text "nets").length) (Nat.le_add_right _ _)
  generalize (handleScan (some nets)).length = depth at read long
  rw [whole] at read
  obtain ⟨less, value, others, behind, rfl, array, rfl, -⟩ := readValue_object (by decide) read
  cases nets with
  | nil => nofun
  | cons net nets =>
      obtain ⟨tail, begins⟩ : ∃ tail, [44].intercalate ((net :: nets).map netText) ++ text "]\x7d" =
          123 :: tail := by
        cases nets <;> exact ⟨_, rfl⟩
      rw [begins] at array
      obtain ⟨least, limit, items, rfl, listed, rfl⟩ := readValue_array rfl (by decide) array
      obtain ⟨found, named, decoded⟩ := Option.bind_eq_some_iff.mp same
      obtain ⟨content, field, inside⟩ := Option.bind_eq_some_iff.mp named
      obtain rfl := field_first field
      cases inside
      rw [← begins] at listed
      exact items_plain (by omega) listed decoded

/-- For any cached networks: the body is JSON whose `nets` are these networks, in order,
exactly when no name holds a quote, a backslash or a control byte. -/
theorem scanReads_iff (nets : List Net) :
    ScanReads (handleScan (some nets)) nets ↔ ∀ net ∈ nets, Plain net.ssid :=
  ⟨plain_of_scanReads, scanReads_of_plain⟩

/-- One neighbour called `"`. -/
theorem quoted_name_unreadable :
    ¬ ∀ nets : List Net, (∀ net ∈ nets, net.ssid ≠ [] ∧ net.ssid.length ≤ 32 ∧ 0 ∉ net.ssid) →
      ScanReads (handleScan (some nets)) nets := by
  intro all
  have reads := all [⟨text "home", -60, true⟩, ⟨text "\"", -50, true⟩] (by decide)
  exact absurd (plain_of_scanReads reads) (by decide)

end FryFirmware.Provisioning
