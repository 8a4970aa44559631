import FryFirmware.Ota.CommitProperties
import Mathlib.Algebra.Ring.Nat
import Mathlib.Data.List.Basic
import Mathlib.Data.List.Induction
import Mathlib.Tactic.Common

/-!
# Only the announced image is staged

`CommitLaw` over every download: any division of the stream, any answer of the
Updater, any manifest digest.
-/

set_option autoImplicit false

namespace FryFirmware.Ota

variable {υ : Type} {U : Updater υ} {idle : υ} {shaExpect : List UInt8}

/-! ## The loop ends -/

def Turn.now : Turn → UInt32
  | .available _ now => now
  | .idle _ now => now

/-- The clock moves between the turns that only wait (`delay(1)`), by less than half
its range. `last` is the reading before. -/
def Paced (last : UInt32) : List Turn → Prop
  | [] => True
  | t :: rest =>
      ((∃ connected now, t = .idle connected now) →
        1 ≤ (t.now - last).toNat ∧ (t.now - last).toNat < 2 ^ 31) ∧ Paced t.now rest

/-- How many turns the loop has left at most: as long as the stall limit allows for
the next byte, and that again for each byte after it. -/
def budget (len : Nat) (s : Streaming υ) (last : UInt32) : Nat :=
  (len - s.done) * 20001 + (20000 - (last - s.lastData).toNat)

theorem Streaming.turn_budget {len : Nat} {s : Streaming υ} {last : UInt32} {t : Turn}
    (pending : s.done < len) (fresh : (last - s.lastData).toNat ≤ 20000)
    (paced : (∃ connected now, t = .idle connected now) →
      1 ≤ (t.now - last).toNat ∧ (t.now - last).toNat < 2 ^ 31)
    (again : (s.turn U t).2 = .again) :
    (t.now - (s.turn U t).1.lastData).toNat ≤ 20000 ∧
      budget len (s.turn U t).1 t.now < budget len s last := by
  cases t with
  | available bytes now =>
      unfold Streaming.turn at again ⊢
      dsimp only at again ⊢
      by_cases empty : bytes.length = 0
      · rw [if_pos empty] at again
        cases again
      rw [if_neg empty] at again ⊢
      split at again
      · cases again
      rename_i accepted
      rw [if_neg accepted]
      have none : (now - now).toNat = 0 := by rw [UInt32.sub_self]; rfl
      simp only [budget, Turn.now, none]
      have less : len - (s.done + bytes.length) + 1 ≤ len - s.done := by omega
      have scaled := Nat.mul_le_mul_right 20001 less
      omega
  | idle connected now =>
      obtain ⟨moved, bounded⟩ := paced ⟨connected, now, rfl⟩
      unfold Streaming.turn at again ⊢
      dsimp only at again ⊢
      split at again
      · cases again
      rename_i open'
      rw [if_neg open']
      split at again
      · cases again
      rename_i quiet
      rw [if_neg quiet]
      have limit : kStallMs.toNat = 20000 := rfl
      have quiet : (now - s.lastData).toNat ≤ 20000 := by
        have := UInt32.not_lt.mp quiet
        rw [UInt32.le_iff_toNat_le, limit] at this
        exact this
      have sum : (now - s.lastData).toNat = (now - last).toNat + (last - s.lastData).toNat := by
        have split : now - s.lastData = (now - last) + (last - s.lastData) := by grind
        rw [split, UInt32.toNat_add, Nat.mod_eq_of_lt (by simp only [Turn.now] at bounded; omega)]
      simp only [Turn.now] at moved ⊢
      exact ⟨quiet, by simp only [budget]; omega⟩

theorem Streaming.run_ends {len : Nat} {s : Streaming υ} {last : UInt32}
    (fresh : (last - s.lastData).toNat ≤ 20000) {turns : List Turn} (paced : Paced last turns)
    (long : budget len s last < turns.length) : (s.run U len turns).2 ≠ .again := by
  induction turns generalizing s last with
  | nil => cases long
  | cons t rest ih =>
      unfold Streaming.run
      by_cases pending : s.done < len
      · rw [if_pos pending]
        dsimp only
        by_cases again : (s.turn U t).2 = .again
        · rw [if_pos again]
          obtain ⟨fresh', less⟩ := Streaming.turn_budget pending fresh paced.1 again
          refine ih fresh' paced.2 ?_
          rw [List.length_cons] at long
          omega
        · rw [if_neg again]
          exact again
      · rw [if_neg pending]
        intro again
        cases again

/-! ## Downloads -/

/-- The update is begun: every gate before the stream was passed. -/
def Opening.Begins (U : Updater υ) (idle : υ) (opening : Opening) : Prop :=
  opening.client = true ∧ opening.url = true ∧ opening.code = 200 ∧ 0 < opening.size ∧
    opening.heap = true ∧ (U.begin idle opening.size.toNat).2 = true

/-- What holds of a download: its log, what it read, and how it ended (`none`: not
yet). -/
structure CommitLaw (U : Updater υ) (idle : υ) (opening : Opening) (shaExpect : List UInt8)
    (started : UInt32) (turns : List Turn) (result : Device υ × Option Bool) : Prop where
  stream : readBytes result.1.log <+: turns.flatMap Turn.bytes
  actions : LogLaw opening.size.toNat shaExpect result.1.log
  applied : result.2 = some true → ∃ rest, result.1.log = rest ++ [.endUpdate true true]
  refused : result.2 = some false → U.staged result.1.updater = false ∧
    (opening.Begins U idle → ∃ rest even ended, result.1.log = rest ++ [.endUpdate even ended] ∧
      (even && ended) = false)
  running : result.2 = none → U.staged result.1.updater = false
  returns : Paced started turns → (opening.size.toNat + 1) * 20001 ≤ turns.length →
    result.2.isSome

theorem commitLaw_closed {opening : Opening} {started : UInt32} {turns : List Turn}
    (closed : ¬ opening.Begins U idle) {u : υ} (clear : U.staged u = false) :
    CommitLaw U idle opening shaExpect started turns (⟨u, []⟩, some false) where
  stream := List.nil_prefix
  actions := logLaw_nil _ _
  applied impossible := by cases impossible
  refused _ := ⟨clear, fun begins => absurd begins closed⟩
  running impossible := by cases impossible
  returns _ _ := rfl

theorem Concluded.commitLaw {opening : Opening} {started : UInt32} {turns : List Turn}
    {result : Device υ × Bool} (concluded : Concluded U opening.size.toNat shaExpect result)
    (stream : readBytes result.1.log <+: turns.flatMap Turn.bytes) :
    CommitLaw U idle opening shaExpect started turns (result.1, some result.2) where
  stream := stream
  actions := concluded.law
  applied ended := by
    obtain ⟨rest, even, result', split, both⟩ := concluded.last
    rw [Option.some.inj ended, Bool.and_eq_true] at both
    rw [both.1, both.2] at split
    exact ⟨rest, split⟩
  refused ended := by
    refine ⟨concluded.clear (Option.some.inj ended), fun _ => ?_⟩
    obtain ⟨rest, even, result', split, both⟩ := concluded.last
    exact ⟨rest, even, result', split, both.trans (Option.some.inj ended)⟩
  running impossible := by cases impossible
  returns _ _ := rfl

theorem readBytes_discard (d : Device υ) : readBytes (discard U d).log = readBytes d.log := by
  simp [discard, Device.endUpdate]

theorem readBytes_judge' (s : Streaming υ) :
    readBytes (s.judge U shaExpect).1.log = readBytes s.device.log := by
  unfold Streaming.judge
  dsimp only
  split
  · simp [Device.ebootCommandClear, readBytes_discard, Device.note]
  · unfold HeldTailWriter.commit
    dsimp only
    split
    · simp [Device.endUpdate, Device.note, readBytes]
    · split <;> simp [Device.endUpdate, Device.write, Device.note, readBytes]

/-- The law of the loop and of what follows it. -/
theorem Streams.commitLaw {opening : Opening} {started : UInt32} {s : Streaming υ}
    (described : U.Described idle opening.size.toNat)
    (streams : Streams U idle opening.size.toNat shaExpect s) (fresh : s.device.log = [])
    (clock : s.lastData = started) (turns : List Turn) :
    CommitLaw U idle opening shaExpect started turns
      (((s.run U opening.size.toNat turns).1).finish U opening.size.toNat shaExpect
        (s.run U opening.size.toNat turns).2) := by
  have stream := Streaming.run_readBytes (U := U) opening.size.toNat s turns
  have ends : Paced started turns → (opening.size.toNat + 1) * 20001 ≤ turns.length →
      (s.run U opening.size.toNat turns).2 ≠ .again := by
    intro paced long
    have none : (started - s.lastData).toNat = 0 := by
      rw [clock, UInt32.sub_self]
      rfl
    refine Streaming.run_ends (by omega) paced ?_
    have most : (opening.size.toNat - s.done) * 20001 ≤ opening.size.toNat * 20001 :=
      Nat.mul_le_mul_right _ (Nat.sub_le _ _)
    simp only [budget]
    omega
  rw [fresh, readBytes_nil, List.nil_append] at stream
  have outcome := streams.run described turns
  generalize s.run U opening.size.toNat turns = reached at stream ends outcome ⊢
  obtain ⟨s', turned⟩ := reached
  cases turned with
  | failed =>
      obtain ⟨impossible, -⟩ | ⟨-, dropped⟩ := outcome
      · exact absurd rfl impossible
      · exact dropped.concluded.commitLaw stream
  | again =>
      obtain ⟨-, streams'⟩ | ⟨impossible, -⟩ := outcome
      · refine ⟨stream, streams'.law, nofun, nofun, fun _ => ?_, fun paced long =>
          absurd rfl (ends paced long)⟩
        show U.staged s'.device.updater = false
        rw [streams'.follows]
        exact described.writesClear _
      · cases impossible
  | leave =>
      obtain ⟨-, streams'⟩ | ⟨impossible, -⟩ := outcome
      · unfold Streaming.finish
        dsimp only
        split
        case isTrue =>
          have dropped :=
            dropped_discard described streams'.follows streams'.law streams'.missing
          exact dropped.concluded.commitLaw (by rw [readBytes_discard]; exact stream)
        case isFalse complete =>
          exact (streams'.judge described (not_not.mp complete)).commitLaw
            (by rw [readBytes_judge']; exact stream)
      · cases impossible

/-- Every download obeys the commit law. -/
theorem downloadAndApply_commitLaw (U : Updater υ) (idle : υ) (opening : Opening)
    (shaExpect : List UInt8) (started : UInt32) (turns : List Turn)
    (described : U.Described idle opening.size.toNat) :
    CommitLaw U idle opening shaExpect started turns
      (downloadAndApply U idle opening shaExpect started turns) := by
  have begunClear : U.staged (U.begin idle opening.size.toNat).1 = false := described.writesClear []
  unfold downloadAndApply
  dsimp only
  by_cases client : opening.client = true
  case neg =>
    rw [if_pos (by simp [client])]
    exact commitLaw_closed (fun begins => client begins.1) described.idleClear
  rw [if_neg (by simp [client])]
  by_cases url : opening.url = true
  case neg =>
    rw [if_pos (by simp [url])]
    exact commitLaw_closed (fun begins => url begins.2.1) described.idleClear
  rw [if_neg (by simp [url])]
  by_cases code : opening.code ≠ 200
  · rw [if_pos code]
    exact commitLaw_closed (fun begins => code begins.2.2.1) described.idleClear
  rw [if_neg code]
  by_cases size : opening.size ≤ 0
  · rw [if_pos size]
    exact commitLaw_closed (fun begins => absurd begins.2.2.2.1 (by omega)) described.idleClear
  rw [if_neg size]
  by_cases heap : opening.heap = true
  case neg =>
    rw [if_pos (by simp [heap])]
    exact commitLaw_closed (fun begins => heap begins.2.2.2.2.1) described.idleClear
  rw [if_neg (by simp [heap])]
  by_cases begun : (U.begin idle opening.size.toNat).2 = true
  case neg =>
    rw [if_pos (by simp [begun])]
    exact commitLaw_closed (fun begins => begun begins.2.2.2.2.2) begunClear
  rw [if_neg (by simp [begun])]
  by_cases buffers : opening.buffers = true
  case neg =>
    rw [if_pos (by simp [buffers])]
    have dropped : Dropped U opening.size.toNat shaExpect
        (discard U ⟨(U.begin idle opening.size.toNat).1, []⟩) :=
      dropped_discard described rfl (logLaw_nil _ _) (show 0 < opening.size.toNat by omega)
    exact dropped.concluded.commitLaw List.nil_prefix
  rw [if_neg (by simp [buffers])]
  have opened : Streams U idle opening.size.toNat shaExpect
      { sha := {}, upd := { total := opening.size.toNat },
        device := ⟨(U.begin idle opening.size.toNat).1, []⟩, lastData := started } :=
    ⟨rfl, logLaw_nil _ _, rfl, rfl, rfl, rfl,
      fun _ => ⟨show 0 < opening.size.toNat by omega, rfl⟩, nofun⟩
  exact opened.commitLaw described rfl rfl turns

/-! ## An Updater over faultless flash -/

structure Flash where
  size : Nat := 0
  address : Nat := 0
  bufferLen : Nat := 0
  first : Option UInt8 := none
  error : Bool := false
  command : Bool := false
  deriving DecidableEq, Repr

def Flash.reset (f : Flash) : Flash := { f with size := 0, address := 0, bufferLen := 0, first := none }

/-- The buffer is flushed while the data does not fit, and at the last byte. -/
def Flash.write (f : Flash) (data : List UInt8) : Flash × Nat :=
  if f.error ∨ f.size = 0 then (f, 0)
  else if f.address + f.bufferLen + data.length > f.size then ({ f with error := true }, 0)
  else
    let flushed := (f.bufferLen + data.length - 1) / 4096 * 4096
    let address := f.address + flushed
    let bufferLen := f.bufferLen + data.length - flushed
    let f := { f with first := f.first.or data.head? }
    if address + bufferLen = f.size then
      ({ f with address := address + bufferLen, bufferLen := 0 }, data.length)
    else ({ f with address := address, bufferLen := bufferLen }, data.length)

def Flash.endUpdate (f : Flash) (evenIfRemaining : Bool) : Flash × Bool :=
  if f.size = 0 then (f, false)
  else if f.error ∨ (f.address ≠ f.size ∧ !evenIfRemaining) then (f.reset, false)
  else if f.first ≠ some 0xE9 then ({ f.reset with error := true }, false)
  else ({ f.reset with command := true }, true)

def flashUpdater : Updater Flash where
  begin f size :=
    if f.size ≠ 0 ∨ size = 0 then (f, false)
    else ({ f.reset with size := size, error := false, command := false }, true)
  write := Flash.write
  endUpdate := Flash.endUpdate
  ebootCommandClear f := { f with command := false }
  progress := Flash.address
  hasError := Flash.error
  staged := Flash.command

theorem flashUpdater_after {total : Nat} (positive : 0 < total) (chunks : List (List UInt8)) :
    (flashUpdater.after {} total chunks).size = total ∧
      (flashUpdater.after {} total chunks).command = false ∧
      (flashUpdater.after {} total chunks).address + (flashUpdater.after {} total chunks).bufferLen ≤
        chunks.flatten.length := by
  induction chunks using List.reverseRecOn with
  | nil =>
      have begun : flashUpdater.begin {} total = ({ size := total }, true) := by
        show (if _ ∨ total = 0 then _ else _) = _
        rw [if_neg (by simp; omega)]
        rfl
      simp [Updater.after, Updater.feed, begun]
  | append_singleton chunks data ih =>
      obtain ⟨size, command, given⟩ := ih
      have next : flashUpdater.after {} total (chunks ++ [data]) =
          (Flash.write (flashUpdater.after {} total chunks) data).1 := by
        simp [Updater.after, Updater.feed, flashUpdater]
      rw [next]
      generalize flashUpdater.after {} total chunks = f at size command given
      simp only [List.flatten_append, List.flatten_cons, List.flatten_nil, List.append_nil,
        List.length_append]
      unfold Flash.write
      dsimp only
      split
      · exact ⟨size, command, by dsimp only; omega⟩
      split
      · exact ⟨size, command, by dsimp only; omega⟩
      split
      · exact ⟨size, command, by dsimp only; omega⟩
      · exact ⟨size, command, by dsimp only; omega⟩

theorem flashUpdater_described {total : Nat} (positive : 0 < total) :
    flashUpdater.Described {} total where
  idleClear := rfl
  writesClear chunks := (flashUpdater_after positive chunks).2.1
  progress_le chunks := by
    have given := (flashUpdater_after positive chunks).2.2
    exact Or.inr (Nat.le_trans (Nat.le_add_right _ _) given)
  refused chunks data short := by
    have size := (flashUpdater_after positive chunks).1
    show (Flash.write _ data).1.error = true
    have short : (Flash.write (flashUpdater.after {} total chunks) data).2 ≠ data.length := short
    generalize flashUpdater.after {} total chunks = f at size short ⊢
    unfold Flash.write at short ⊢
    dsimp only at short ⊢
    split
    · rename_i halted
      obtain error | stopped := halted
      · exact error
      · omega
    split
    · rfl
    · rename_i running fits
      rw [if_neg running, if_neg fits] at short
      split at short <;> exact absurd rfl short
  unfinished chunks missing := by
    obtain ⟨size, command, -⟩ := flashUpdater_after positive chunks
    show (Flash.endUpdate _ false).1.command = false
    have missing : (flashUpdater.after {} total chunks).error = true ∨
        (flashUpdater.after {} total chunks).address < total := missing
    generalize flashUpdater.after {} total chunks = f at size command missing ⊢
    unfold Flash.endUpdate
    rw [if_neg (by omega), if_pos]
    · exact command
    · obtain error | short := missing
      · exact Or.inl error
      · exact Or.inr ⟨by omega, rfl⟩
  failed chunks failure := by
    obtain ⟨size, command, -⟩ := flashUpdater_after positive chunks
    show (Flash.endUpdate _ true).1.command = false
    have failure : (Flash.endUpdate (flashUpdater.after {} total chunks) true).2 = false := failure
    generalize flashUpdater.after {} total chunks = f at size command failure ⊢
    unfold Flash.endUpdate at failure ⊢
    split
    · exact command
    split
    · exact command
    split
    · exact command
    · rename_i running sound magic
      rw [if_neg running, if_neg sound, if_neg magic] at failure
      cases failure
  cleared _ _ := rfl

/-- A five-byte image in three pieces is staged, with the digest in capitals. -/
theorem downloadAndApply_commitLaw_image :
    let opening : Opening := ⟨true, true, 200, 5, true, true⟩
    let digest : List UInt8 := hexDigits [
      0x3e, 0xd7, 0x05, 0x7f, 0x34, 0x6f, 0x70, 0xe0, 0xf5, 0x01, 0x51, 0x76, 0x24, 0x50, 0x71, 0x67,
      0x55, 0xa0, 0x66, 0x7f, 0xb4, 0x55, 0x90, 0xae, 0x5f, 0xd5, 0x30, 0xc6, 0x87, 0x6c, 0x37, 0x94]
    let turns : List Turn := [.available [0xE9, 1] 7, .idle true 8, .available [2, 3] 9, .available [4] 10]
    (downloadAndApply flashUpdater {} opening digest 5 turns).2 = some true ∧
      CommitLaw flashUpdater {} opening digest 5 turns
        (downloadAndApply flashUpdater {} opening digest 5 turns) := by
  refine ⟨by decide +kernel, ?_⟩
  exact downloadAndApply_commitLaw flashUpdater {} _ _ 5 _ (flashUpdater_described (by decide))

end FryFirmware.Ota
