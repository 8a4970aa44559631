import FryFirmware.Relay.Pool
import FryFirmware.Relay.FinProtocol
import Mathlib.Tactic.Common

/-!
# The watch list

`buildWatchList` watches every wanted descriptor that `select` can take and
flags the others. A side whose descriptor the shim closed for a FIN is never
wanted again, so the guard never drops a half-closed session for it.
-/

set_option autoImplicit false

namespace FryFirmware.Relay

open Lib

def Slot.fd (s : Slot) : Side → Int
  | .client => s.clientFd
  | .up => s.upFd

def Wants.rd (w : Wants) : Side → Bool
  | .client => w.clientRd
  | .up => w.upRd

def Wants.wr (w : Wants) : Side → Bool
  | .client => w.clientWr
  | .up => w.upWr

def Side.other : Side → Side
  | .client => .up
  | .up => .client

/-- The slot wants its descriptor on that side. -/
def wanted (s : Slot) (side : Side) : Bool :=
  (slotWants s).rd side || (slotWants s).wr side

/-- What the slot waits for on one side. -/
def sideWatch (s : Slot) (side : Side) : Watch where
  fd := s.fd side
  rd := (slotWants s).rd side
  wr := (slotWants s).wr side

def listenWatch (listenFd : Int) : Watch where
  fd := listenFd
  rd := true
  wr := false

/-- A watch `select` is asked for and can take. -/
def Watchable (fdSetSize : Int) (watch : Watch) : Prop :=
  (watch.rd || watch.wr) = true ∧ fdInRange watch.fd fdSetSize = true

instance (fdSetSize : Int) (watch : Watch) : Decidable (Watchable fdSetSize watch) :=
  inferInstanceAs (Decidable (_ ∧ _))

/-- A watch `select` is asked for and cannot take. -/
def Lost (fdSetSize : Int) (watch : Watch) : Prop :=
  (watch.rd || watch.wr) = true ∧ fdInRange watch.fd fdSetSize = false

instance (fdSetSize : Int) (watch : Watch) : Decidable (Lost fdSetSize watch) :=
  inferInstanceAs (Decidable (_ ∧ _))

/-! ## One entry -/

/-- The entries kept of a list of requests. -/
def keepWatches (fdSetSize : Int) (requests : List Watch) : List Watch :=
  requests.filter fun watch => decide (Watchable fdSetSize watch)

theorem add_w (out : WatchList) (fdSetSize fd : Int) (rd wr : Bool) :
    (out.add fdSetSize fd rd wr).1.w = out.w ++ keepWatches fdSetSize [{ fd, rd, wr }] := by
  unfold WatchList.add keepWatches Watchable
  cases rd <;> cases wr <;> cases inRange : fdInRange fd fdSetSize <;> simp [inRange]

theorem add_refused (out : WatchList) (fdSetSize fd : Int) (rd wr : Bool) :
    (out.add fdSetSize fd rd wr).2 = false ↔ Lost fdSetSize { fd, rd, wr } := by
  unfold WatchList.add Lost
  cases rd with
  | false =>
      cases wr with
      | false => simp
      | true => cases fdInRange fd fdSetSize <;> simp
  | true => cases wr <;> cases fdInRange fd fdSetSize <;> simp

theorem add_slotBad (out : WatchList) (fdSetSize fd : Int) (rd wr : Bool) :
    (out.add fdSetSize fd rd wr).1.slotBad = out.slotBad := by
  unfold WatchList.add
  split
  · rfl
  · split <;> rfl

theorem add_listenBad (out : WatchList) (fdSetSize fd : Int) (rd wr : Bool) :
    (out.add fdSetSize fd rd wr).1.listenBad = out.listenBad := by
  unfold WatchList.add
  split
  · rfl
  · split <;> rfl

/-- `maxFd` is the largest descriptor of the list. -/
structure Topped (out : WatchList) : Prop where
  empty : out.w = [] → out.maxFd = -1
  reached : out.w ≠ [] → ∃ watch ∈ out.w, watch.fd = out.maxFd
  above : ∀ watch ∈ out.w, watch.fd ≤ out.maxFd

theorem topped_start : Topped {} where
  empty := fun _ => rfl
  reached := fun some => absurd rfl some
  above := nofun

theorem add_topped {out : WatchList} (topped : Topped out) (fdSetSize fd : Int) (rd wr : Bool) :
    Topped (out.add fdSetSize fd rd wr).1 := by
  unfold WatchList.add
  split
  · exact topped
  · split
    · exact topped
    · next inRange =>
      simp only [fdInRange, Bool.not_eq_eq_eq_not, Bool.not_true, Bool.and_eq_false_iff,
        decide_eq_false_iff_not, not_or, not_not] at inRange
      constructor
      · intro none
        simp at none
      · intro _
        dsimp only
        split
        · exact ⟨_, List.mem_append_right _ (List.mem_singleton_self _), rfl⟩
        · next lower =>
          by_cases none : out.w = []
          · have start := topped.empty none
            omega
          · obtain ⟨watch, present, top⟩ := topped.reached none
            exact ⟨watch, List.mem_append_left _ present, top⟩
      · intro watch present
        rcases List.mem_append.mp present with old | new
        · have bound := topped.above watch old
          dsimp only
          split <;> omega
        · rw [List.mem_singleton.mp new]
          dsimp only
          split <;> omega

/-! ## One slot -/

/-- What a slot asks `select` for. -/
def slotRequests : Option Slot → List Watch
  | none => []
  | some s => if isLive s then [sideWatch s .client, sideWatch s .up] else []

/-- The slot wants a descriptor out of range. -/
def SlotLost (fdSetSize : Int) (slot : Option Slot) : Prop :=
  ∃ s side, slot = some s ∧ isLive s = true ∧ Lost fdSetSize (sideWatch s side)

theorem keepWatches_append (fdSetSize : Int) (first second : List Watch) :
    keepWatches fdSetSize (first ++ second) =
      keepWatches fdSetSize first ++ keepWatches fdSetSize second :=
  List.filter_append _ _

theorem watchSlot_w (fdSetSize : Int) (out : WatchList) (i : Nat) (slot : Option Slot) :
    (watchSlot fdSetSize out i slot).w = out.w ++ keepWatches fdSetSize (slotRequests slot) := by
  cases slot with
  | none => simp [watchSlot, slotRequests, keepWatches]
  | some s =>
      cases live : isLive s with
      | false => simp [watchSlot, slotRequests, keepWatches, live]
      | true =>
          have both : slotRequests (some s) = [sideWatch s .client] ++ [sideWatch s .up] := by
            simp [slotRequests, live]
          rw [both, keepWatches_append, ← List.append_assoc]
          simp only [watchSlot, live, Bool.not_true, Bool.false_eq_true, ↓reduceIte]
          split
          · exact (add_w _ _ _ _ _).trans (congrArg (· ++ _) (add_w out _ _ _ _))
          · exact (add_w _ _ _ _ _).trans (congrArg (· ++ _) (add_w out _ _ _ _))

theorem watchSlot_topped {out : WatchList} (topped : Topped out) (fdSetSize : Int) (i : Nat)
    (slot : Option Slot) : Topped (watchSlot fdSetSize out i slot) := by
  cases slot with
  | none => exact topped
  | some s =>
      simp only [watchSlot]
      split
      · exact topped
      · have client := add_topped topped fdSetSize s.clientFd (slotWants s).clientRd
          (slotWants s).clientWr
        have both := add_topped client fdSetSize s.upFd (slotWants s).upRd (slotWants s).upWr
        split
        · exact ⟨both.empty, both.reached, both.above⟩
        · exact both

theorem watchSlot_listenBad (fdSetSize : Int) (out : WatchList) (i : Nat) (slot : Option Slot) :
    (watchSlot fdSetSize out i slot).listenBad = out.listenBad := by
  cases slot with
  | none => rfl
  | some s =>
      simp only [watchSlot]
      split
      · rfl
      · split
        · exact (add_listenBad _ _ _ _ _).trans (add_listenBad out _ _ _ _)
        · exact (add_listenBad _ _ _ _ _).trans (add_listenBad out _ _ _ _)

theorem slotLost_iff {s : Slot} {fdSetSize : Int} :
    SlotLost fdSetSize (some s) ↔ isLive s = true ∧
      (Lost fdSetSize (sideWatch s .client) ∨ Lost fdSetSize (sideWatch s .up)) := by
  constructor
  · rintro ⟨_, side, same, live, lost⟩
    cases same
    cases side with
    | client => exact ⟨live, .inl lost⟩
    | up => exact ⟨live, .inr lost⟩
  · rintro ⟨live, lost | lost⟩
    · exact ⟨s, .client, rfl, live, lost⟩
    · exact ⟨s, .up, rfl, live, lost⟩

/-- A slot flags itself, and only itself, when it wants a descriptor out of range. -/
theorem watchSlot_slotBad (fdSetSize : Int) (out : WatchList) {i : Nat} (slot : Option Slot)
    (inside : i < out.slotBad.length) (j : Nat) :
    (watchSlot fdSetSize out i slot).slotBad[j]? = some true ↔
      out.slotBad[j]? = some true ∨ (j = i ∧ SlotLost fdSetSize slot) := by
  cases slot with
  | none => simp [watchSlot, SlotLost]
  | some s =>
      rw [slotLost_iff]
      simp only [watchSlot]
      cases live : isLive s with
      | false => simp
      | true =>
          simp only [Bool.not_true, Bool.false_eq_true, ↓reduceIte, true_and]
          split
          · next lost =>
            have flagged : Lost fdSetSize (sideWatch s .client) ∨ Lost fdSetSize (sideWatch s .up) := by
              simp only [Bool.or_eq_true, Bool.not_eq_eq_eq_not, Bool.not_true, add_refused] at lost
              exact lost
            rw [add_slotBad, add_slotBad, List.getElem?_set]
            by_cases same : i = j
            · subst same
              simp [inside, flagged]
            · simp [same, Ne.symm same]
          · next kept =>
            have fine : ¬ (Lost fdSetSize (sideWatch s .client) ∨ Lost fdSetSize (sideWatch s .up)) := by
              simp only [Bool.or_eq_true, Bool.not_eq_eq_eq_not, Bool.not_true, add_refused] at kept
              exact kept
            rw [add_slotBad, add_slotBad]
            simp [fine]

theorem watchSlot_length (fdSetSize : Int) (out : WatchList) (i : Nat) (slot : Option Slot) :
    (watchSlot fdSetSize out i slot).slotBad.length = out.slotBad.length := by
  cases slot with
  | none => rfl
  | some s =>
      simp only [watchSlot]
      split
      · rfl
      · split <;> simp only [List.length_set, add_slotBad]

/-! ## The loop -/

theorem watchSlots_w (fdSetSize : Int) (out : WatchList) (i : Nat) (slots : Pool) :
    (watchSlots fdSetSize out i slots).w =
      out.w ++ keepWatches fdSetSize ((slots.take (kMaxSlots - i)).flatMap slotRequests) := by
  induction slots generalizing out i with
  | nil => simp [watchSlots, keepWatches]
  | cons slot slots ih =>
      simp only [watchSlots]
      split
      · next inside =>
        have more : kMaxSlots - i = (kMaxSlots - (i + 1)) + 1 := by omega
        rw [ih, watchSlot_w, more, List.take_succ_cons, List.flatMap_cons, keepWatches_append,
          List.append_assoc]
      · next outside =>
        have done : kMaxSlots - i = 0 := by omega
        simp [done, keepWatches]

theorem watchSlots_topped {out : WatchList} (topped : Topped out) (fdSetSize : Int) (i : Nat)
    (slots : Pool) : Topped (watchSlots fdSetSize out i slots) := by
  induction slots generalizing out i with
  | nil => exact topped
  | cons slot slots ih =>
      simp only [watchSlots]
      split
      · exact ih (watchSlot_topped topped fdSetSize i slot) (i + 1)
      · exact topped

theorem watchSlots_listenBad (fdSetSize : Int) (out : WatchList) (i : Nat) (slots : Pool) :
    (watchSlots fdSetSize out i slots).listenBad = out.listenBad := by
  induction slots generalizing out i with
  | nil => rfl
  | cons slot slots ih =>
      simp only [watchSlots]
      split
      · rw [ih, watchSlot_listenBad]
      · rfl

/-- The loop from index `i` on flags the slots from there that want a descriptor
out of range. -/
theorem watchSlots_slotBad (fdSetSize : Int) {out : WatchList}
    (length : out.slotBad.length = kMaxSlots) (i : Nat) (slots : Pool) (j : Nat) :
    (watchSlots fdSetSize out i slots).slotBad[j]? = some true ↔
      out.slotBad[j]? = some true ∨
        (i ≤ j ∧ j < kMaxSlots ∧ ∃ slot, slots[j - i]? = some slot ∧ SlotLost fdSetSize slot) := by
  induction slots generalizing out i with
  | nil => simp [watchSlots]
  | cons slot slots ih =>
      simp only [watchSlots]
      split
      · next inside =>
        rw [ih ((watchSlot_length fdSetSize out i slot).trans length),
          watchSlot_slotBad fdSetSize out slot (length ▸ inside), or_assoc]
        apply or_congr_right
        constructor
        · rintro (⟨rfl, lost⟩ | ⟨after, below, other, found, lost⟩)
          · exact ⟨Nat.le_refl j, inside, slot, by simp, lost⟩
          · refine ⟨by omega, below, other, ?_, lost⟩
            have next : j - i = (j - (i + 1)) + 1 := by omega
            rw [next, List.getElem?_cons_succ, found]
        · rintro ⟨from_, below, other, found, lost⟩
          rcases Nat.eq_or_lt_of_le from_ with rfl | after
          · rw [Nat.sub_self, List.getElem?_cons_zero, Option.some.injEq] at found
            exact .inl ⟨rfl, found ▸ lost⟩
          · have next : j - i = (j - (i + 1)) + 1 := by omega
            rw [next, List.getElem?_cons_succ] at found
            exact .inr ⟨after, below, other, found, lost⟩
      · next outside =>
        constructor
        · exact .inl
        · rintro (old | ⟨from_, below, _⟩)
          · exact old
          · omega

/-! ## The list handed to `select` -/

/-- `buildWatchList` before its loop over the slots. -/
def watchListener (listenFd : Int) (watchListen : Bool) (fdSetSize : Int) : WatchList :=
  if watchListen then
    let listen := WatchList.add {} fdSetSize listenFd true false
    if !listen.2 then { listen.1 with listenBad := true } else listen.1
  else {}

theorem buildWatchList_eq (slots : Pool) (listenFd : Int) (watchListen : Bool) (fdSetSize : Int) :
    buildWatchList slots listenFd watchListen fdSetSize =
      watchSlots fdSetSize (watchListener listenFd watchListen fdSetSize) 0 slots := rfl

/-- What the listener asks `select` for. -/
def listenRequests (listenFd : Int) (watchListen : Bool) : List Watch :=
  if watchListen then [listenWatch listenFd] else []

theorem watchListener_spec (listenFd : Int) (watchListen : Bool) (fdSetSize : Int) :
    (watchListener listenFd watchListen fdSetSize).w =
        keepWatches fdSetSize (listenRequests listenFd watchListen) ∧
      Topped (watchListener listenFd watchListen fdSetSize) ∧
      (watchListener listenFd watchListen fdSetSize).slotBad = List.replicate kMaxSlots false ∧
      ((watchListener listenFd watchListen fdSetSize).listenBad = true ↔
        watchListen = true ∧ fdInRange listenFd fdSetSize = false) := by
  cases watchListen with
  | false => exact ⟨rfl, topped_start, rfl, by simp [watchListener]⟩
  | true =>
      have entry := add_w {} fdSetSize listenFd true false
      have topped := add_topped topped_start fdSetSize listenFd true false
      have slots := add_slotBad {} fdSetSize listenFd true false
      have fine := add_listenBad {} fdSetSize listenFd true false
      have refused := add_refused {} fdSetSize listenFd true false
      have lost : Lost fdSetSize { fd := listenFd, rd := true, wr := false } ↔
          fdInRange listenFd fdSetSize = false := by simp [Lost]
      rw [lost] at refused
      simp only [watchListener, ↓reduceIte]
      split
      · next out =>
        rw [Bool.not_eq_eq_eq_not, Bool.not_true] at out
        exact ⟨entry, ⟨topped.empty, topped.reached, topped.above⟩, slots,
          iff_of_true rfl ⟨trivial, refused.mp out⟩⟩
      · next inside =>
        rw [Bool.not_eq_eq_eq_not, Bool.not_true] at inside
        refine ⟨entry, topped, slots, ?_⟩
        rw [fine]
        exact iff_of_false nofun fun both => inside (refused.mpr both.2)

theorem slotRequests_length (slot : Option Slot) : (slotRequests slot).length ≤ 2 := by
  cases slot with
  | none => exact Nat.zero_le 2
  | some s =>
      simp only [slotRequests]
      split
      · exact Nat.le_refl 2
      · exact Nat.zero_le 2

theorem flatMap_slotRequests_length (slots : Pool) :
    (slots.flatMap slotRequests).length ≤ 2 * slots.length := by
  induction slots with
  | nil => exact Nat.le_refl 0
  | cons slot slots ih =>
      rw [List.flatMap_cons, List.length_append, List.length_cons]
      have head := slotRequests_length slot
      omega

/-- A live slot at index `i` wants the descriptor of `side`. -/
structure Asks (slots : Pool) (i : Nat) (s : Slot) (side : Side) : Prop where
  inside : i < kMaxSlots
  present : slots[i]? = some (some s)
  live : isLive s = true
  wanted : wanted s side = true

/-- The list names what is wanted and can be watched, and flags the rest. -/
structure WatchLaw (slots : Pool) (listenFd : Int) (watchListen : Bool) (fdSetSize : Int)
    (out : WatchList) : Prop where
  count : out.w.length ≤ 9
  inRange : ∀ watch ∈ out.w, 0 ≤ watch.fd ∧ watch.fd < fdSetSize
  maxFd : Topped out
  entries : ∀ watch, watch ∈ out.w ↔
    fdInRange watch.fd fdSetSize = true ∧
      ((watchListen = true ∧ watch = listenWatch listenFd) ∨
        ∃ i s side, Asks slots i s side ∧ watch = sideWatch s side)
  slotBad : ∀ i : Nat, out.slotBad[i]? = some true ↔
    ∃ s side, Asks slots i s side ∧ fdInRange (s.fd side) fdSetSize = false
  listenBad : out.listenBad = true ↔ watchListen = true ∧ fdInRange listenFd fdSetSize = false

theorem buildWatchList_w (slots : Pool) (listenFd : Int) (watchListen : Bool) (fdSetSize : Int) :
    (buildWatchList slots listenFd watchListen fdSetSize).w =
      keepWatches fdSetSize
        (listenRequests listenFd watchListen ++ (slots.take kMaxSlots).flatMap slotRequests) := by
  rw [buildWatchList_eq, watchSlots_w, (watchListener_spec _ _ _).1, keepWatches_append, Nat.sub_zero]

theorem buildWatchList_count (slots : Pool) (listenFd : Int) (watchListen : Bool)
    (fdSetSize : Int) : (buildWatchList slots listenFd watchListen fdSetSize).w.length ≤ 9 := by
  rw [buildWatchList_w, keepWatches]
  refine Nat.le_trans (List.length_filter_le _ _) ?_
  have few := flatMap_slotRequests_length (slots.take kMaxSlots)
  have taken := List.length_take_le kMaxSlots slots
  have listener : (listenRequests listenFd watchListen).length ≤ 1 := by
    cases watchListen with
    | false => exact Nat.zero_le 1
    | true => exact Nat.le_refl 1
  rw [List.length_append]
  simp only [kMaxSlots] at few taken ⊢
  omega

theorem mem_slotRequests {slots : Pool} {watch : Watch}
    (asked : (watch.rd || watch.wr) = true) :
    watch ∈ (slots.take kMaxSlots).flatMap slotRequests ↔
      ∃ i s side, Asks slots i s side ∧ watch = sideWatch s side := by
  rw [List.mem_flatMap]
  constructor
  · rintro ⟨slot, present, requested⟩
    obtain ⟨i, found⟩ := List.mem_iff_getElem?.mp present
    rw [List.getElem?_take] at found
    split at found
    · next inside =>
      cases slot with
      | none => cases requested
      | some s =>
          simp only [slotRequests] at requested
          split at requested
          · next live =>
            rcases List.mem_pair.mp requested with rfl | rfl
            · exact ⟨i, s, .client, ⟨inside, found, live, asked⟩, rfl⟩
            · exact ⟨i, s, .up, ⟨inside, found, live, asked⟩, rfl⟩
          · cases requested
    · cases found
  · rintro ⟨i, s, side, asks, rfl⟩
    refine ⟨some s, List.mem_iff_getElem?.mpr ⟨i, ?_⟩, ?_⟩
    · rw [List.getElem?_take, if_pos asks.inside, asks.present]
    · simp only [slotRequests, asks.live, ↓reduceIte]
      cases side with
      | client => exact .head _
      | up => exact .tail _ (.head _)

theorem buildWatchList_entries (slots : Pool) (listenFd : Int) (watchListen : Bool)
    (fdSetSize : Int) (watch : Watch) :
    watch ∈ (buildWatchList slots listenFd watchListen fdSetSize).w ↔
      fdInRange watch.fd fdSetSize = true ∧
        ((watchListen = true ∧ watch = listenWatch listenFd) ∨
          ∃ i s side, Asks slots i s side ∧ watch = sideWatch s side) := by
  rw [buildWatchList_w, keepWatches, List.mem_filter, decide_eq_true_eq, Watchable, List.mem_append]
  constructor
  · rintro ⟨listening | slot, asked, inside⟩
    · refine ⟨inside, .inl ?_⟩
      cases watchListen with
      | false => cases listening
      | true => exact ⟨rfl, List.mem_singleton.mp listening⟩
    · exact ⟨inside, .inr ((mem_slotRequests asked).mp slot)⟩
  · rintro ⟨inside, ⟨rfl, rfl⟩ | ⟨i, s, side, asks, rfl⟩⟩
    · exact ⟨.inl (.head _), rfl, inside⟩
    · have asked : ((sideWatch s side).rd || (sideWatch s side).wr) = true := asks.wanted
      exact ⟨.inr ((mem_slotRequests asked).mpr ⟨i, s, side, asks, rfl⟩), asked, inside⟩

theorem buildWatchList_slotBad (slots : Pool) (listenFd : Int) (watchListen : Bool)
    (fdSetSize : Int) (i : Nat) :
    (buildWatchList slots listenFd watchListen fdSetSize).slotBad[i]? = some true ↔
      ∃ s side, Asks slots i s side ∧ fdInRange (s.fd side) fdSetSize = false := by
  have start := (watchListener_spec listenFd watchListen fdSetSize).2.2.1
  rw [buildWatchList_eq, watchSlots_slotBad fdSetSize (start ▸ List.length_replicate), start]
  constructor
  · rintro (old | ⟨_, inside, slot, found, s, side, rfl, live, asked, out⟩)
    · rw [List.getElem?_replicate] at old
      split at old <;> cases old
    · exact ⟨s, side, ⟨inside, found, live, asked⟩, out⟩
  · rintro ⟨s, side, asks, out⟩
    exact .inr ⟨Nat.zero_le i, asks.inside, some s, asks.present, s, side, rfl, asks.live,
      asks.wanted, out⟩

theorem buildWatchList_law (slots : Pool) (listenFd : Int) (watchListen : Bool) (fdSetSize : Int) :
    WatchLaw slots listenFd watchListen fdSetSize
      (buildWatchList slots listenFd watchListen fdSetSize) where
  count := buildWatchList_count slots listenFd watchListen fdSetSize
  inRange := by
    intro watch present
    have inside := ((buildWatchList_entries _ _ _ _ watch).mp present).1
    simpa only [fdInRange, Bool.and_eq_true, decide_eq_true_eq] using inside
  maxFd := watchSlots_topped (watchListener_spec _ _ _).2.1 fdSetSize 0 slots
  entries := buildWatchList_entries slots listenFd watchListen fdSetSize
  slotBad := buildWatchList_slotBad slots listenFd watchListen fdSetSize
  listenBad := by
    rw [buildWatchList_eq, watchSlots_listenBad]
    exact (watchListener_spec _ _ _).2.2.2

/-! ## A side closed for a FIN -/

/-- A finished side stays finished. -/
theorem shimStep_rdOpen {w : Session} {side : Side} (finished : w.slot.rdOpen side = false)
    (op : ShimOp) : (w.shimStep op).slot.rdOpen side = false := by
  cases op with
  | recv from_ answer now =>
      have slot : (w.shimStep (.recv from_ answer now)).slot = (doRecv w.slot from_ answer now).1 := by
        simp [Session.shimStep, Session.recvStep]
      rw [slot, doRecv_rdOpen, finished, Bool.false_and]
  | send toward answer now =>
      exact (doSend_rdOpen w.slot toward answer now side).trans finished
  | timer t now => exact (onTimer_same w.slot t now side).1.trans finished
  | connectStarted upFd now => exact (onConnectStarted_same w.slot upFd now side).1.trans finished
  | connectResult ok now => exact (onConnectResult_same w.slot ok now side).1.trans finished
  | forceClose why => exact (slotForceClose_same w.slot why.reason side).1.trans finished
  | takeShutdown of_ =>
      simp only [Session.shimStep, Session.countFin_slot]
      exact (takeShutdown_rdOpen w.slot of_ side).trans finished
  | forwardFin of_ drained now =>
      simp only [Session.shimStep, Session.countFin_slot, forwardFin_eq]
      split
      · rw [onSideClosed, relayUpdate_rdOpen, finishSide_rdOpen, drainAndClose_rdOpen,
          takeFinAction_slot, takeShutdown_rdOpen, finished, Bool.false_and]
      · rw [takeFinAction_slot, takeShutdown_rdOpen, finished]

theorem shimRun_rdOpen {w : Session} {side : Side} (finished : w.slot.rdOpen side = false)
    (ops : List ShimOp) : (w.shimRun ops).slot.rdOpen side = false := by
  induction ops generalizing w with
  | nil => exact finished
  | cons op ops ih => exact ih (shimStep_rdOpen finished op)

/-- Carrying out a FIN by a close finishes the side. -/
theorem forwardFin_closes {w : Session} {side : Side}
    (answer : (takeFinAction w.slot side).2 = .close) (drained : List (List UInt8)) (now : UInt32) :
    (w.shimStep (.forwardFin side drained now)).slot.rdOpen side = false := by
  simp only [Session.shimStep, Session.countFin_slot, forwardFin_eq, answer, ↓reduceIte]
  rw [onSideClosed, relayUpdate_rdOpen, finishSide_rdOpen]
  simp

/-- A finished side with nothing to send to it is not wanted in a late phase. -/
theorem unwanted {w : Session} (tracked : Tracked w) {side : Side}
    (finished : w.slot.rdOpen side = false) (handed : 1 ≤ w.fins side) :
    wanted w.slot side = false := by
  have writes := (tracked.handed handed).2
  have reads : (slotWants w.slot).rd side = false := by
    have fins := tracked.lawful.fins
    have shut := tracked.shut handed
    cases side with
    | up =>
        have open_ : w.slot.upRdOpen = false := finished
        rcases fins.late_up (.inr (.inl shut)) with phase | phase <;>
          simp [slotWants, Wants.rd, phase, open_]
    | client =>
        have open_ : w.slot.clientRdOpen = false := finished
        rcases fins.late_client (.inr shut) with phase | phase <;>
          simp [slotWants, Wants.rd, phase, open_]
  have same : (slotWants w.slot).wr side = wantsWrite w.slot side := by
    cases side <;> rfl
  rw [wanted, reads, same, writes]
  rfl

/-- From the close of a side on, its descriptor is not wanted. -/
theorem closed_unwanted {w : Session} (tracked : Tracked w) {side : Side}
    (answer : (takeFinAction w.slot side).2 = .close) (drained : List (List UInt8)) (now : UInt32)
    (more : List ShimOp) :
    wanted ((w.shimStep (.forwardFin side drained now)).shimRun more).slot side = false := by
  apply unwanted (tracked_shimRun (tracked_forwardFin tracked side drained now) more)
  · exact shimRun_rdOpen (forwardFin_closes answer drained now) more
  · refine Nat.le_trans ?_ (fins_shimRun_mono _ more side)
    simp only [Session.shimStep, countFin_fins, forwardFin_eq, answer, ne_eq, reduceCtorEq,
      not_false_eq_true, decide_true, Bool.and_self, Bool.toNat_true]
    exact Nat.le_add_left _ _

/-- A slot that does not want one side is flagged for the other side only. -/
theorem flagged_other {s : Slot} {side : Side} (idle : wanted s side = false) {slots : Pool}
    {i : Nat} (present : slots[i]? = some (some s)) {listenFd : Int} {watchListen : Bool}
    {fdSetSize : Int}
    (flagged : (buildWatchList slots listenFd watchListen fdSetSize).slotBad[i]? = some true) :
    wanted s side.other = true ∧ fdInRange (s.fd side.other) fdSetSize = false := by
  obtain ⟨found, asking, asks, out⟩ :=
    (buildWatchList_slotBad slots listenFd watchListen fdSetSize i).mp flagged
  have same : found = s := by
    have both := asks.present.symm.trans present
    rwa [Option.some.injEq, Option.some.injEq] at both
  subst same
  have differs : asking ≠ side := by
    rintro rfl
    exact Bool.false_ne_true (idle.symm.trans asks.wanted)
  have other : asking = side.other := by
    cases asking <;> cases side <;> first | rfl | exact absurd rfl differs
  exact other ▸ ⟨asks.wanted, out⟩

/-- The watch list of any pool follows the wants of its slots, and a side the
shim closed for a FIN is never wanted again, whatever happens to the slot. -/
theorem watchList_guards :
    (∀ (slots : Pool) (listenFd : Int) (watchListen : Bool) (fdSetSize : Int),
      WatchLaw slots listenFd watchListen fdSetSize
        (buildWatchList slots listenFd watchListen fdSetSize)) ∧
    ∀ (c2u u2c : Memory UInt8 kBufSize) (clientFd : Int) (start finGraceMs : UInt32)
      (ops : List ShimOp) (side : Side) (drained : List (List UInt8)) (now : UInt32)
      (more : List ShimOp),
      let w := (Session.start c2u u2c clientFd start finGraceMs).shimRun ops
      let later := ((w.shimStep (.forwardFin side drained now)).shimRun more).slot
      (takeFinAction w.slot side).2 = .close →
        wanted later side = false ∧
        ∀ (slots : Pool) (i : Nat) (listenFd : Int) (watchListen : Bool) (fdSetSize : Int),
          slots[i]? = some (some later) →
          (buildWatchList slots listenFd watchListen fdSetSize).slotBad[i]? = some true →
            wanted later side.other = true ∧
              fdInRange (later.fd side.other) fdSetSize = false := by
  refine ⟨buildWatchList_law, ?_⟩
  intro c2u u2c clientFd start finGraceMs ops side drained now more w later answer
  have tracked := tracked_shimRun (tracked_start c2u u2c clientFd start finGraceMs) ops
  have idle : wanted later side = false := closed_unwanted tracked answer drained now more
  exact ⟨idle, fun _ _ _ _ _ present => flagged_other idle present⟩

/-- A session whose upstream finishes first, up to the FIN toward the client. -/
def upstreamFinishes : List ShimOp :=
  [.recv .client (.returns [5, 1, 0] .eagain) 1, .send .client (.takes 2 .eagain) 2,
    .recv .client (.returns [5, 1, 0, 1, 10, 0, 0, 1, 0, 80] .eagain) 3,
    .connectStarted 6 4, .connectResult true 5, .send .client (.takes 10 .eagain) 6,
    .recv .up (.returns [] .eagain) 7]

/-- The same session once the shim has closed the client's descriptor. -/
def clientClosed : Session :=
  ((Session.start (.filled kBufSize 0) (.filled kBufSize 0) 5 0 500).shimRun
    upstreamFinishes).shimStep (.forwardFin .client [] 8)

theorem watchList_guards_upstreamFinishes :
    clientClosed.slot.clientFd = -1 ∧ wanted clientClosed.slot .client = false := by
  constructor
  · decide +kernel
  · exact ((watchList_guards.2 (.filled kBufSize 0) (.filled kBufSize 0) 5 0 500 upstreamFinishes
      .client [] 8 []) (by decide +kernel)).1

end FryFirmware.Relay
