import FryFirmware.Config.PrefsStore
import Mathlib.Tactic.Common

/-!
# What a change of one key leaves of the others

The rename puts whatever text reached the temporary file in the place of the old one.
A change therefore keeps the other keys exactly if that text is complete and was made
from the whole old document.
-/

set_option autoImplicit false

namespace FryFirmware.Config.PrefsStore

open Lib.Json

variable (codec : Codec) (environment : Environment)

/-! ## The law -/

/-- What the namespace holds, as an undisturbed load reads it. -/
def contents (disk : Disk) : Document := (disk.file.bind codec.deserializeJson).getD .null

def Change.key : Change → Bytes
  | .putString key _ => key
  | .putBool key _ => key
  | .putInt key _ => key
  | .putUInt key _ => key
  | .putUChar key _ => key
  | .putBytes key _ => key
  | .remove key => key

/-- The value that a change stores; `remove` stores none. -/
def Change.value : Change → Option Value
  | .putString _ value => some (.string value)
  | .putBool _ value => some (.bool value)
  | .putInt _ value => some (.number (signed value))
  | .putUInt _ value => some (.number (unsigned value))
  | .putUChar _ value => some (.number (unsigned value.toUInt32))
  | .putBytes _ value => some (.string (base64Mark ++ codec.base64 value))
  | .remove _ => none

def Change.applied (change : Change) (document : Document) : Document :=
  match change.value codec with
  | some value => document.set change.key value
  | none => document.remove change.key

def SameReading (first second : Document) : Prop := ∀ key, first.get key = second.get key

/-- Every other key reads back as before, and the file is the old one, or whole with
the old or the new content. -/
structure Preserved (change : Change) (before after : Disk) : Prop where
  others : ∀ other, other ≠ change.key →
    (contents codec after).get other = (contents codec before).get other
  whole : after.file = before.file ∨
    ∃ content document, after.file = some content ∧ codec.deserializeJson content = some document ∧
      (SameReading document (contents codec before) ∨
        SameReading document (change.applied codec (contents codec before)))

/-! ## When it holds -/

/-- The buffer of `putBytes` is allocated. -/
def Change.allocated : Change → Bool
  | .putBytes _ _ => environment.allocates
  | _ => true

/-- The document that a change hands to `save`. -/
def Change.saved (change : Change) (document : Document) : Document :=
  match change.value codec with
  | some value => assign environment document change.key value
  | none => document.remove change.key

/-- The text that reaches the temporary file. -/
def written (change : Change) (disk : Disk) : Bytes :=
  (codec.serializeJson (change.saved codec environment (load codec environment disk).1)).take
    environment.accepted

/-- The session gets as far as the rename, and the rename is done. -/
structure Replaces (readOnly : Bool) (change : Change) (disk : Disk) : Prop where
  begins : environment.begins = true
  writable : readOnly = false
  allocated : change.allocated environment = true
  tmpOpens : environment.tmpOpens = true
  renames : environment.renames = true
  powered : ∀ done, environment.reset = some done → (loadOps disk).length + 3 ≤ done

/-- The text is written to its end; it was made from the whole old document, or there
is no other key to lose; and the new value found memory, or replaces none. -/
structure Sound (change : Change) (disk : Disk) : Prop where
  complete : (codec.serializeJson
    (change.saved codec environment (load codec environment disk).1)).length ≤ environment.accepted
  loaded : environment.opens = true ∧ environment.parses = true ∨
    ∀ other, other ≠ change.key → (contents codec disk).get other = none
  assigned : environment.assigns = true ∨ change.value codec = none ∨
    (contents codec disk).get change.key = none

/-! ## The operations of a session -/

variable {codec environment}

theorem change_run (handle : Handle) (change : Change) :
    change.run codec environment handle =
      if !handle.isOpen || handle.readOnly || !change.allocated environment then (handle, [])
      else
        let saved := save codec environment
          { handle with doc := change.saved codec environment handle.doc }
        (saved.1, saved.2.1) := by
  obtain ⟨isOpen, readOnly, dirty, doc⟩ := handle
  cases change with
  | putBytes key value =>
      cases allocates : environment.allocates <;> cases isOpen <;> cases readOnly <;>
        simp [Change.run, putBytes, put, Change.allocated, Change.saved, Change.value, Change.key, allocates]
  | _ => cases isOpen <;> cases readOnly <;> rfl

/-- `save` writes the temporary file and renames it, or drops it. -/
theorem save_ops (handle : Handle) (writable : handle.readOnly = false) :
    (save codec environment handle).2.1 =
      if environment.tmpOpens then
        [.openTmp, .writeTmp ((codec.serializeJson handle.doc).take environment.accepted),
          if environment.renames then .rename else .removeTmp]
      else [] := by
  unfold save
  rw [writable]
  cases environment.tmpOpens <;> cases environment.renames <;> rfl

/-- Nothing sets `_dirty`. -/
theorem save_dirty (handle : Handle) (clean : handle.dirty = false) :
    (save codec environment handle).1.dirty = false := by
  unfold save
  cases handle.readOnly <;> cases environment.tmpOpens <;> cases environment.renames <;>
    first | exact clean | rfl

theorem finish_clean (handle : Handle) (clean : handle.dirty = false) :
    finish codec environment handle = [] := by
  simp [finish, clean]

theorem sessionOps_eq (readOnly : Bool) (change : Change) (disk : Disk) :
    sessionOps codec environment readOnly change disk =
      if environment.begins then
        loadOps disk ++
          if !readOnly && change.allocated environment && environment.tmpOpens then
            [.openTmp, .writeTmp (written codec environment change disk),
              if environment.renames then .rename else .removeTmp]
          else []
      else [] := by
  unfold sessionOps begin
  cases environment.begins with
  | false => simp [change_run, finish]
  | true =>
      simp only [if_true, change_run, Bool.not_true, Bool.false_or]
      cases readOnly with
      | true => simp [finish]
      | false =>
          cases change.allocated environment with
          | false => simp [finish]
          | true =>
              simp only [Bool.not_true, Bool.or_false, Bool.false_eq_true, if_false, Bool.not_false,
                Bool.true_and]
              rw [finish_clean _ (save_dirty _ rfl), save_ops _ rfl, List.append_nil]
              rfl

/-! ## The file after a session -/

theorem file_of_no_rename {ops : List FsOp} (none : FsOp.rename ∉ ops) (disk : Disk) :
    (ops.foldl FsOp.apply disk).file = disk.file := by
  induction ops generalizing disk with
  | nil => rfl
  | cons op ops ih =>
      obtain ⟨here, later⟩ := not_or.mp (List.mem_cons.not.mp none)
      rw [List.foldl_cons, ih later]
      cases op with
      | rename => exact absurd rfl here
      | _ => rfl

theorem loadOps_no_rename (disk : Disk) : FsOp.rename ∉ loadOps disk := by
  unfold loadOps
  split <;> simp

theorem file_of_rename (front : List FsOp) (content : Bytes) (disk : Disk) :
    ((front ++ [FsOp.openTmp, .writeTmp content, .rename]).foldl FsOp.apply disk).file = some content := by
  rw [List.foldl_append]
  simp [FsOp.apply]

/-- Short of the rename, the file stays as it is. -/
theorem session_file_kept {readOnly : Bool} {change : Change} {disk : Disk}
    (kept : ¬ Replaces environment readOnly change disk) :
    (session codec environment readOnly change disk).file = disk.file := by
  have absent := loadOps_no_rename disk
  have front : FsOp.rename ∉
      loadOps disk ++ [FsOp.openTmp, .writeTmp (written codec environment change disk)] := by
    simp [absent]
  by_cases complete : environment.begins = true ∧ readOnly = false ∧
      change.allocated environment = true ∧ environment.tmpOpens = true ∧ environment.renames = true
  · -- the reset comes before the rename
    obtain ⟨begins, writable, allocated, tmpOpens, renames⟩ := complete
    have ops : sessionOps codec environment readOnly change disk =
        (loadOps disk ++ [.openTmp, .writeTmp (written codec environment change disk)]) ++ [.rename] := by
      rw [sessionOps_eq, begins, writable, allocated, tmpOpens, renames]
      simp
    unfold session
    rw [ops]
    cases reset : environment.reset with
    | none =>
        exact absurd ⟨begins, writable, allocated, tmpOpens, renames, by simp [reset]⟩ kept
    | some done =>
        have early : done < (loadOps disk).length + 3 := by
          by_contra late
          refine kept ⟨begins, writable, allocated, tmpOpens, renames, fun other same => ?_⟩
          obtain rfl := Option.some.inj (reset.symm.trans same)
          exact Nat.le_of_not_lt late
        dsimp only
        rw [List.take_append_of_le_length (by simp; omega)]
        exact file_of_no_rename (fun member => front (List.mem_of_mem_take member)) disk
  · have none : FsOp.rename ∉ sessionOps codec environment readOnly change disk := by
      rw [sessionOps_eq]
      cases begins : environment.begins <;> cases writable : readOnly <;>
        cases allocated : change.allocated environment <;> cases tmpOpens : environment.tmpOpens <;>
          cases renames : environment.renames <;> simp_all
    unfold session
    cases environment.reset with
    | none => exact file_of_no_rename none disk
    | some done => exact file_of_no_rename (fun member => none (List.mem_of_mem_take member)) disk

theorem session_file_replaced {readOnly : Bool} {change : Change} {disk : Disk}
    (replaces : Replaces environment readOnly change disk) :
    (session codec environment readOnly change disk).file =
      some (written codec environment change disk) := by
  obtain ⟨begins, writable, allocated, tmpOpens, renames, powered⟩ := replaces
  have ops : sessionOps codec environment readOnly change disk =
      loadOps disk ++ [.openTmp, .writeTmp (written codec environment change disk), .rename] := by
    rw [sessionOps_eq, begins, writable, allocated, tmpOpens, renames]
    rfl
  unfold session
  rw [ops]
  cases reset : environment.reset with
  | none => exact file_of_rename ..
  | some done =>
      dsimp only
      rw [List.take_of_length_le (by simpa using powered done reset)]
      exact file_of_rename ..

/-! ## The documents -/

theorem contents_of_file {before after : Disk} (same : after.file = before.file) :
    contents codec after = contents codec before := by
  rw [contents, contents, same]

theorem load_faithful (disk : Disk) (opens : environment.opens = true) (parses : environment.parses = true) :
    (load codec environment disk).1 = contents codec disk := by
  unfold load contents
  cases disk.file with
  | none => rfl
  | some content =>
      simp only [opens, parses, if_true, Option.bind_some]
      cases codec.deserializeJson content <;> rfl

theorem load_failed (disk : Disk) (failed : ¬ (environment.opens = true ∧ environment.parses = true)) :
    (load codec environment disk).1 = .null := by
  unfold load
  cases disk.file with
  | none => rfl
  | some content =>
      cases opens : environment.opens with
      | false => rfl
      | true =>
          have parses : environment.parses = false :=
            Bool.eq_false_iff.mpr fun parses => failed ⟨opens, parses⟩
          simp [parses]

theorem saved_get_other (change : Change) (document : Document) {other : Bytes}
    (different : other ≠ change.key) :
    (change.saved codec environment document).get other = document.get other := by
  unfold Change.saved
  cases change.value codec with
  | none => exact get_remove_other document different
  | some value =>
      show (assign environment document change.key value).get other = _
      unfold assign
      split
      · exact get_set_other document value different
      · exact get_remove_other document different

theorem saved_get_self (codec : Codec) (environment : Environment) (change : Change) (document : Document) :
    (change.saved codec environment document).get change.key =
      if environment.assigns then change.value codec else none := by
  unfold Change.saved
  cases change.value codec with
  | none =>
      rw [ite_self]
      exact get_remove_self document change.key
  | some value =>
      show (assign environment document change.key value).get change.key = _
      unfold assign
      split
      · exact get_set_self document change.key value
      · exact get_remove_self document change.key

theorem applied_get_other (change : Change) (document : Document) {other : Bytes}
    (different : other ≠ change.key) :
    (change.applied codec document).get other = document.get other := by
  unfold Change.applied
  cases change.value codec with
  | none => exact get_remove_other document different
  | some value => exact get_set_other document value different

theorem applied_get_self (change : Change) (document : Document) :
    (change.applied codec document).get change.key = change.value codec := by
  unfold Change.applied
  cases change.value codec with
  | none => exact get_remove_self document change.key
  | some value => exact get_set_self document change.key value

/-- Two documents read the same if they agree on the key and on the others. -/
theorem sameReading_of_key {first second : Document} (key : Bytes) (self : first.get key = second.get key)
    (others : ∀ other, other ≠ key → first.get other = second.get other) : SameReading first second := by
  intro other
  by_cases same : other = key
  · exact same ▸ self
  · exact others other same

/-! ## The frame law of a session -/

variable {readOnly : Bool} {change : Change} {disk : Disk}

theorem preserved_of_file (same : (session codec environment readOnly change disk).file = disk.file) :
    Preserved codec change disk (session codec environment readOnly change disk) :=
  ⟨fun _ _ => by rw [contents_of_file same], Or.inl same⟩

theorem written_complete (complete : (codec.serializeJson
      (change.saved codec environment (load codec environment disk).1)).length ≤ environment.accepted) :
    written codec environment change disk =
      codec.serializeJson (change.saved codec environment (load codec environment disk).1) :=
  List.take_of_length_le complete

/-- A short text is not read back. -/
theorem written_short (short : ¬ (codec.serializeJson
      (change.saved codec environment (load codec environment disk).1)).length ≤ environment.accepted) :
    codec.deserializeJson (written codec environment change disk) = none := by
  refine codec.rejects_cut _ _ (List.take_prefix _ _) fun same => short ?_
  rw [← same]
  exact List.length_take_le _ _

theorem preserved_of_sound (replaces : Replaces environment readOnly change disk)
    (sound : Sound codec environment change disk) :
    Preserved codec change disk (session codec environment readOnly change disk) := by
  have file : (session codec environment readOnly change disk).file =
      some (written codec environment change disk) := session_file_replaced replaces
  rw [written_complete sound.complete] at file
  set saved := change.saved codec environment (load codec environment disk).1 with saved_eq
  have after : contents codec (session codec environment readOnly change disk) = saved := by
    rw [contents, file, Option.bind_some, codec.reads_serialized, Option.getD_some]
  have others : ∀ other, other ≠ change.key → saved.get other = (contents codec disk).get other := by
    intro other different
    rw [saved_eq, saved_get_other change _ different]
    by_cases faithful : environment.opens = true ∧ environment.parses = true
    · rw [load_faithful disk faithful.1 faithful.2]
    · rw [load_failed disk faithful, get_null]
      exact ((sound.loaded.resolve_left faithful) other different).symm
  refine ⟨fun other different => by rw [after, others other different], Or.inr ⟨_, saved, file, ?_, ?_⟩⟩
  · exact codec.reads_serialized saved
  · have self := saved_get_self codec environment change (load codec environment disk).1
    by_cases assigns : environment.assigns = true
    · rw [if_pos assigns] at self
      refine Or.inr (sameReading_of_key change.key ?_ fun other different => ?_)
      · rw [applied_get_self, saved_eq, self]
      · rw [applied_get_other change _ different, others other different]
    · rw [if_neg assigns] at self
      obtain removed | absent := sound.assigned.resolve_left assigns
      · refine Or.inr (sameReading_of_key change.key ?_ fun other different => ?_)
        · rw [applied_get_self, saved_eq, self, removed]
        · rw [applied_get_other change _ different, others other different]
      · refine Or.inl (sameReading_of_key change.key ?_ others)
        rw [saved_eq, self, absent]

theorem sound_of_preserved (replaces : Replaces environment readOnly change disk)
    (fresh : disk.file ≠ some (written codec environment change disk))
    (preserved : Preserved codec change disk (session codec environment readOnly change disk)) :
    Sound codec environment change disk := by
  have file : (session codec environment readOnly change disk).file =
      some (written codec environment change disk) := session_file_replaced replaces
  obtain kept | ⟨content, document, here, read, reading⟩ := preserved.whole
  · exact absurd (kept.symm.trans file) fresh
  obtain rfl := Option.some.inj (here.symm.trans file)
  have complete : (codec.serializeJson
      (change.saved codec environment (load codec environment disk).1)).length ≤ environment.accepted := by
    by_contra short
    rw [written_short short] at read
    cases read
  rw [written_complete complete, codec.reads_serialized] at read
  obtain rfl := Option.some.inj read
  have after : contents codec (session codec environment readOnly change disk) =
      change.saved codec environment (load codec environment disk).1 := by
    rw [contents, file, written_complete complete, Option.bind_some, codec.reads_serialized,
      Option.getD_some]
  refine ⟨complete, ?_, ?_⟩
  · by_cases faithful : environment.opens = true ∧ environment.parses = true
    · exact Or.inl faithful
    · refine Or.inr fun other different => ?_
      rw [← preserved.others other different, after, saved_get_other change _ different,
        load_failed disk faithful, get_null]
  · by_cases assigns : environment.assigns = true
    · exact Or.inl assigns
    · refine Or.inr ?_
      have self := saved_get_self codec environment change (load codec environment disk).1
      rw [if_neg assigns] at self
      obtain old | new := reading
      · exact Or.inr ((old change.key).symm.trans self)
      · exact Or.inl ((applied_get_self change _).symm.trans ((new change.key).symm.trans self))

/-- A change of one key keeps the other keys, and leaves the file whole, exactly if the
text renamed over the file is sound, or is what the file already held. -/
theorem session_preserved_iff :
    Preserved codec change disk (session codec environment readOnly change disk) ↔
      (Replaces environment readOnly change disk →
        disk.file = some (written codec environment change disk) ∨
          Sound codec environment change disk) := by
  constructor
  · intro preserved replaces
    by_cases fresh : disk.file = some (written codec environment change disk)
    · exact Or.inl fresh
    · exact Or.inr (sound_of_preserved replaces fresh preserved)
  · intro condition
    by_cases replaces : Replaces environment readOnly change disk
    · obtain same | sound := condition replaces
      · exact preserved_of_file ((session_file_replaced replaces).trans same.symm)
      · exact preserved_of_sound replaces sound
    · exact preserved_of_file (session_file_kept replaces)

/-! ## Runs -/

/-- One session with its circumstances. -/
structure Session where
  environment : Environment
  readOnly : Bool
  change : Change

/-- The sessions one after the other, with a restart wherever one was reset. -/
def sessions (codec : Codec) : List Session → Disk → Disk
  | [], disk => disk
  | next :: rest, disk =>
      sessions codec rest (session codec next.environment next.readOnly next.change disk)

/-- Every session finds circumstances under which it keeps the other keys. -/
def AllSound (codec : Codec) : List Session → Disk → Prop
  | [], _ => True
  | next :: rest, disk =>
      (Replaces next.environment next.readOnly next.change disk → Sound codec next.environment next.change disk) ∧
        AllSound codec rest (session codec next.environment next.readOnly next.change disk)

/-- A key that no session changes reads as it did at the beginning. -/
theorem sessions_keep_key {codec : Codec} {run : List Session} {disk : Disk} {key : Bytes}
    (sound : AllSound codec run disk) (untouched : ∀ next ∈ run, key ≠ next.change.key) :
    (contents codec (sessions codec run disk)).get key = (contents codec disk).get key := by
  induction run generalizing disk with
  | nil => rfl
  | cons next rest ih =>
      obtain ⟨here, later⟩ := sound
      have kept : Preserved codec next.change disk
          (session codec next.environment next.readOnly next.change disk) := by
        by_cases replaces : Replaces next.environment next.readOnly next.change disk
        · exact preserved_of_sound replaces (here replaces)
        · exact preserved_of_file (session_file_kept replaces)
      calc (contents codec (sessions codec (next :: rest) disk)).get key
          = (contents codec (session codec next.environment next.readOnly next.change disk)).get key :=
            ih later fun other member => untouched other (List.mem_cons_of_mem _ member)
        _ = (contents codec disk).get key := kept.others key (untouched next List.mem_cons_self)

/-- The file of a namespace with a key and an unrelated value. -/
def identity : Disk :=
  { file := some (flatJson.serializeJson (.object
      [(text "minerKey", .string (text "FPA-1")), (text "healAt", .number (unsigned 7))])) }

/-- Renewing one key drops the other, where the load runs out of memory and where the
text is cut short. -/
theorem session_loses_minerKey :
    ¬ Preserved flatJson (.putUInt (text "healAt") 8) identity
        (session flatJson { accepted := 100, parses := false } false (.putUInt (text "healAt") 8) identity) ∧
      ¬ Preserved flatJson (.putUInt (text "healAt") 8) identity
        (session flatJson { accepted := 20 } false (.putUInt (text "healAt") 8) identity) := by
  constructor
  · intro preserved
    exact absurd (preserved.others (text "minerKey") (by decide +kernel)) (by decide +kernel)
  · intro preserved
    exact absurd (preserved.others (text "minerKey") (by decide +kernel)) (by decide +kernel)

end FryFirmware.Config.PrefsStore
