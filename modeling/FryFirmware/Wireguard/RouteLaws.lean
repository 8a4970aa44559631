import FryFirmware.Wireguard.RoutesProperties
import Mathlib.Data.List.Basic
import Mathlib.Data.List.Infix
import Mathlib.Tactic.Common

/-!
# What a plan keeps from the board's network

Where the routes of a plan come from and what they leave out, which candidates are
left out, and when no route is planned twice.
-/

set_option autoImplicit false

namespace FryFirmware.Wireguard

open Lib Config
open Relay (prefixToMask)

variable {excluded : List Nat} {routes cands front back : List Network} {b c : Network}
variable {sta : Station}

/-! ## The candidate loop -/

theorem takeRoute_cases (excluded : List Nat) (routes : List Network) (c : Network) :
    (takeRoute excluded routes c = routes ∧
      (3 ≤ routes.length ∨ c ∈ routes ∨ c.avoid excluded = none)) ∨
    ∃ left, c.avoid excluded = some left ∧ routes.length < 3 ∧ c ∉ routes ∧
      takeRoute excluded routes c = routes ++ [left] := by
  unfold takeRoute kWgMaxPlannedRoutes
  by_cases room : routes.length < 3
  · rw [if_pos room]
    by_cases present : c ∈ routes
    · rw [if_pos present]
      exact .inl ⟨rfl, .inr (.inl present)⟩
    · rw [if_neg present]
      cases left : c.avoid excluded with
      | none => exact .inl ⟨rfl, .inr (.inr rfl)⟩
      | some kept => exact .inr ⟨kept, rfl, room, present, rfl⟩
  · rw [if_neg room]
    exact .inl ⟨rfl, .inl (Nat.not_lt.mp room)⟩

theorem takeRoutes_append_singleton (excluded : List Nat) (cands : List Network) (c : Network) :
    takeRoutes excluded (cands ++ [c]) = takeRoute excluded (takeRoutes excluded cands) c := by
  rw [takeRoutes, List.foldl_append]
  rfl

theorem takeRoutes_grows (excluded : List Nat) (front back : List Network) :
    takeRoutes excluded front <+: takeRoutes excluded (front ++ back) := by
  induction back using List.reverseRecOn with
  | nil => rw [List.append_nil]
  | append_singleton back c ih =>
      rw [← List.append_assoc, takeRoutes_append_singleton]
      rcases takeRoute_cases excluded (takeRoutes excluded (front ++ back)) c with
        ⟨same, -⟩ | ⟨left, -, -, -, more⟩
      · rwa [same]
      · rw [more]
        exact ih.trans (List.prefix_append _ _)

/-- The addresses that a route may not capture: the board's own and its gateway, while
it is on a network. -/
def Station.Holds (sta : Station) (a : Nat) : Prop :=
  0 < sta.bits ∧ ((sta.ip ≠ 0 ∧ a = sta.ip.toNat) ∨ (sta.gateway ≠ 0 ∧ a = sta.gateway.toNat))

instance (sta : Station) (a : Nat) : Decidable (sta.Holds a) :=
  inferInstanceAs (Decidable (_ ∧ _))

theorem mem_excluded {a : Nat} : a ∈ sta.excluded ↔ sta.Holds a := by
  by_cases up : 0 < sta.bits
  · by_cases own : sta.ip = 0 <;> by_cases gate : sta.gateway = 0 <;>
      simp [Station.excluded, Station.staActive, Station.gwActive, Station.Holds, up, own, gate]
  · simp [Station.excluded, Station.staActive, Station.gwActive, Station.Holds, up]

theorem avoid_excluded_none_iff : c.avoid sta.excluded = none ↔ ∀ a ∈ c, sta.Holds a := by
  rw [Block.avoid_eq_none_iff (excluded_length sta)]
  simp only [mem_excluded]

theorem avoid_excluded_some (left : c.avoid sta.excluded = some b) :
    (∀ a ∈ b, a ∈ c ∧ ¬ sta.Holds a) ∧ c.length ≤ b.length := by
  obtain ⟨members, longer⟩ := Block.avoid_eq_some left
  refine ⟨fun a inside => ?_, longer⟩
  rw [← mem_excluded]
  exact members a inside

/-! ## Where routes come from -/

/-- The routes of a plan with the places of their candidates: in order, at most three,
each a part of its candidate without the board's addresses. A candidate is passed over
only after the third route, for a route that it equals, or because the board's
addresses are all it has. -/
structure Planned (sta : Station) (cands : List Network) (planned : List (Nat × Network)) : Prop where
  order : planned.Pairwise fun p q => p.1 < q.1
  few : planned.length ≤ 3
  source : ∀ p ∈ planned, ∃ c, cands[p.1]? = some c ∧ 8 ≤ c.length ∧ c.length ≤ p.2.length ∧
    ∀ a ∈ p.2, a ∈ c ∧ ¬ sta.Holds a
  complete : ∀ i c, cands[i]? = some c → (∀ p ∈ planned, p.1 ≠ i) →
    (planned.filter fun p => p.1 < i).length = 3 ∨ (∃ p ∈ planned, p.1 < i ∧ p.2 = c) ∨
      ∀ a ∈ c, sta.Holds a

theorem Planned.source_lt {planned : List (Nat × Network)} (plan : Planned sta cands planned)
    {p : Nat × Network} (member : p ∈ planned) : p.1 < cands.length := by
  obtain ⟨c, found, -⟩ := plan.source p member
  exact (List.getElem?_eq_some_iff.mp found).1

theorem Planned.pass {planned : List (Nat × Network)} (plan : Planned sta cands planned)
    (reason : planned.length = 3 ∨ (∃ p ∈ planned, p.2 = c) ∨ ∀ a ∈ c, sta.Holds a) :
    Planned sta (cands ++ [c]) planned where
  order := plan.order
  few := plan.few
  source := by
    intro p member
    obtain ⟨d, found, rest⟩ := plan.source p member
    exact ⟨d, List.getElem?_append_left (plan.source_lt member) ▸ found, rest⟩
  complete := by
    intro i d found skipped
    rcases Nat.lt_or_ge i cands.length with inside | last
    · rw [List.getElem?_append_left inside] at found
      exact plan.complete i d found skipped
    · rw [List.getElem?_append_right last] at found
      obtain ⟨zero, same⟩ := List.getElem?_eq_some_iff.mp found
      obtain rfl : c = d := by simpa using same
      have all (p : Nat × Network) (member : p ∈ planned) : p.1 < i :=
        Nat.lt_of_lt_of_le (plan.source_lt member) last
      rcases reason with full | ⟨p, member, same⟩ | covered
      · refine .inl ?_
        rwa [List.filter_eq_self.mpr fun p member => decide_eq_true (all p member)]
      · exact .inr (.inl ⟨p, member, all p member, same⟩)
      · exact .inr (.inr covered)

theorem Planned.take {planned : List (Nat × Network)} (plan : Planned sta cands planned)
    (room : planned.length < 3) (wide : 8 ≤ c.length) (left : c.avoid sta.excluded = some b) :
    Planned sta (cands ++ [c]) (planned ++ [(cands.length, b)]) where
  order := by
    rw [List.pairwise_append]
    refine ⟨plan.order, List.pairwise_singleton _ _, fun p member q last => ?_⟩
    obtain rfl := List.mem_singleton.mp last
    exact plan.source_lt member
  few := by
    rw [List.length_append, List.length_singleton]
    omega
  source := by
    intro p member
    obtain here | last := List.mem_append.mp member
    · obtain ⟨d, found, rest⟩ := plan.source p here
      exact ⟨d, List.getElem?_append_left (plan.source_lt here) ▸ found, rest⟩
    · obtain rfl := List.mem_singleton.mp last
      obtain ⟨members, longer⟩ := avoid_excluded_some left
      exact ⟨c, by simp, wide, longer, members⟩
  complete := by
    intro i d found skipped
    have apart : i ≠ cands.length := by
      rintro rfl
      exact skipped (cands.length, b) (by simp) rfl
    have inside : i < cands.length := by
      have bound := (List.getElem?_eq_some_iff.mp found).1
      rw [List.length_append, List.length_singleton] at bound
      omega
    rw [List.getElem?_append_left inside] at found
    have earlier : (planned ++ [(cands.length, b)]).filter (fun p => p.1 < i) =
        planned.filter fun p => p.1 < i := by
      rw [List.filter_append]
      simp [Nat.le_of_lt inside]
    rw [earlier]
    rcases plan.complete i d found fun p member => skipped p (List.mem_append_left _ member) with
      full | ⟨p, member, rest⟩ | covered
    · exact .inl full
    · exact .inr (.inl ⟨p, List.mem_append_left _ member, rest⟩)
    · exact .inr (.inr covered)

theorem takeRoutes_planned (sta : Station) (wide : ∀ c ∈ cands, 8 ≤ c.length) :
    ∃ planned, planned.map Prod.snd = takeRoutes sta.excluded cands ∧ Planned sta cands planned := by
  induction cands using List.reverseRecOn with
  | nil => exact ⟨[], rfl, .nil, by decide, nofun, nofun⟩
  | append_singleton cands c ih =>
      obtain ⟨planned, routes, plan⟩ := ih fun c member => wide c (List.mem_append_left _ member)
      have count : planned.length = (takeRoutes sta.excluded cands).length := by
        rw [← routes, List.length_map]
      rw [takeRoutes_append_singleton]
      rcases takeRoute_cases sta.excluded (takeRoutes sta.excluded cands) c with
        ⟨same, reason⟩ | ⟨left, avoided, room, -, more⟩
      · refine ⟨planned, routes.trans same.symm, plan.pass ?_⟩
        rcases reason with full | present | none
        · have few := plan.few
          exact .inl (by omega)
        · rw [← routes] at present
          obtain ⟨p, member, same⟩ := List.mem_map.mp present
          exact .inr (.inl ⟨p, member, same⟩)
        · exact .inr (.inr (avoid_excluded_none_iff.mp none))
      · refine ⟨planned ++ [(cands.length, left)], by rw [more, ← routes]; simp, ?_⟩
        exact plan.take (by omega) (wide c (by simp)) avoided

theorem candidates_wide (allowedIps : List CString) : ∀ c ∈ candidates allowedIps, 8 ≤ c.length := by
  intro c member
  obtain ⟨entry, -, found⟩ := List.mem_filterMap.mp member
  unfold candidateOf at found
  split at found
  · split at found
    · next wide =>
      cases found
      exact Nat.le_min.mpr ⟨wide, by decide⟩
    · cases found
  · cases found

/-- A turn returns, or goes on with a block one bit longer. -/
theorem narrowTurn_cases (sta : Station) (cur : Kept) :
    (∃ result, narrowTurn sta cur = .inl result) ∨
      (cur.bits ≠ 32 ∧ ∃ net, narrowTurn sta cur = .inr ⟨net, cur.bits + 1⟩) := by
  unfold narrowTurn
  simp only
  split
  · exact .inl ⟨_, rfl⟩
  · split
    · exact .inl ⟨_, rfl⟩
    · next wide =>
      split
      · exact .inr ⟨wide, _, rfl⟩
      · exact .inr ⟨wide, _, rfl⟩

/-- The narrowing loop ends, also from a network address with further bits. -/
theorem narrowLoop_ends (sta : Station) {turns : Nat} {cur : Kept} (small : cur.bits ≤ 32)
    (enough : 32 - cur.bits < turns) : ∃ result, narrowLoop sta turns cur = some result := by
  induction turns generalizing cur with
  | zero => omega
  | succ turns ih =>
      rw [narrowLoop]
      rcases narrowTurn_cases sta cur with ⟨result, done⟩ | ⟨wide, net, next⟩
      · exact ⟨result, by rw [done]⟩
      · rw [next]
        have small : cur.bits + 1 ≤ 32 := by omega
        exact @ih ⟨net, cur.bits + 1⟩ small (by simp only; omega)

/-- What a plan for any address, candidates and station is. -/
theorem planWgRoutes_excludes (addressCidr : CString) (allowedIps : List CString) (sta : Station) :
    (∀ (net : UInt32) (bits : Nat), bits ≤ 32 →
      ∃ result, narrowAwayFromSta sta net bits = some result) ∧
    ∃ plan, planWgRoutes addressCidr allowedIps sta = some plan ∧
      (addressCidr.bind readCidr = none → plan.ok = false ∧ plan.allowedCidr = []) ∧
      ∀ ip bits, addressCidr.bind readCidr = some (ip, bits) →
        plan.ok = true ∧ ∃ planned, Planned sta (candidates allowedIps) planned ∧
          plan.allowedCidr =
            (if planned = [] then [networkAt ip bits] else planned.map Prod.snd).map networkText := by
  refine ⟨fun net bits small => narrowLoop_ends sta small (by simp only; omega), ?_⟩
  cases read : addressCidr.bind readCidr with
  | none => exact ⟨_, planWgRoutes_unreadable read allowedIps sta, fun _ => ⟨rfl, rfl⟩,
      fun _ _ same => by cases same⟩
  | some route =>
      obtain ⟨ip, bits⟩ := route
      refine ⟨_, planWgRoutes_eq read allowedIps sta, fun unread => (by cases unread), ?_⟩
      intro ip' bits' same
      cases same
      obtain ⟨planned, routes, plan⟩ := takeRoutes_planned sta (candidates_wide allowedIps)
      refine ⟨rfl, planned, plan, ?_⟩
      rw [← routes]
      simp only [List.map_eq_nil_iff]

/-! ## When no route is planned twice -/

theorem routes_clear (excluded : List Nat) (cands : List Network) :
    ∀ b ∈ takeRoutes excluded cands, ∀ a ∈ b, a ∉ excluded := by
  induction cands using List.reverseRecOn with
  | nil => exact nofun
  | append_singleton cands c ih =>
      intro b member a inside
      rw [takeRoutes_append_singleton] at member
      rcases takeRoute_cases excluded (takeRoutes excluded cands) c with
        ⟨same, -⟩ | ⟨left, avoided, -, -, more⟩
      · exact ih b (same ▸ member) a inside
      · rw [more] at member
        obtain here | last := List.mem_append.mp member
        · exact ih b here a inside
        · rw [List.mem_singleton.mp last] at inside
          exact ((Block.avoid_eq_some avoided).1 a inside).2

def remainders (excluded : List Nat) (cands : List Network) : List Network :=
  cands.filterMap (·.avoid excluded)

theorem remainders_append_singleton (excluded : List Nat) (cands : List Network) (c : Network) :
    remainders excluded (cands ++ [c]) = remainders excluded cands ++ (c.avoid excluded).toList := by
  rw [remainders, List.filterMap_append, ← remainders, List.filterMap_cons, List.filterMap_nil]
  cases c.avoid excluded <;> rfl

/-- The routes are remainders, all of them while a place is free. -/
theorem routes_remainders (excluded : List Nat) (cands : List Network) :
    takeRoutes excluded cands ⊆ remainders excluded cands ∧
      ((takeRoutes excluded cands).length < 3 →
        remainders excluded cands ⊆ takeRoutes excluded cands) := by
  induction cands using List.reverseRecOn with
  | nil => exact ⟨List.Subset.refl _, fun _ => List.Subset.refl _⟩
  | append_singleton cands c ih =>
      obtain ⟨inside, whole⟩ := ih
      rw [takeRoutes_append_singleton, remainders_append_singleton]
      rcases takeRoute_cases excluded (takeRoutes excluded cands) c with
        ⟨same, reason⟩ | ⟨left, avoided, room, -, more⟩
      · rw [same]
        refine ⟨List.subset_append_of_subset_left _ inside, fun room => ?_⟩
        refine List.append_subset.mpr ⟨whole room, ?_⟩
        rcases reason with full | present | none
        · omega
        · have clear := routes_clear excluded cands c present
          rw [Block.avoid_outside fun x member inside => clear x inside member]
          intro b last
          exact List.mem_singleton.mp last ▸ present
        · rw [none]
          exact List.nil_subset _
      · rw [more, avoided]
        exact ⟨List.append_subset.mpr ⟨List.subset_append_of_subset_left _ inside,
          List.subset_append_right _ _⟩, fun _ => List.append_subset.mpr
          ⟨List.subset_append_of_subset_left _ (whole room), List.subset_append_right _ _⟩⟩

/-- The candidate is neither what an earlier one left, nor are the excluded addresses all
it has. -/
def AsksPlace (excluded : List Nat) (front : List Network) (c : Network) : Prop :=
  c.avoid excluded ≠ none ∧ c ∉ remainders excluded front

instance (excluded : List Nat) (front : List Network) (c : Network) :
    Decidable (AsksPlace excluded front c) :=
  inferInstanceAs (Decidable (_ ∧ _))

/-- How many candidates after the first ones ask for a place. -/
def placesFrom (excluded : List Nat) (front : List Network) : List Network → Nat
  | [] => 0
  | c :: rest => (if AsksPlace excluded front c then 1 else 0) +
      placesFrom excluded (front ++ [c]) rest

def places (excluded : List Nat) (cands : List Network) : Nat := placesFrom excluded [] cands

theorem placesFrom_append_singleton (excluded : List Nat) (front cands : List Network)
    (c : Network) : placesFrom excluded front (cands ++ [c]) =
      placesFrom excluded front cands + if AsksPlace excluded (front ++ cands) c then 1 else 0 := by
  induction cands generalizing front with
  | nil => rw [List.append_nil, List.nil_append, placesFrom, placesFrom, placesFrom, Nat.add_comm]
  | cons d rest ih =>
      rw [List.cons_append, placesFrom, ih, placesFrom, List.append_assoc, List.singleton_append,
        Nat.add_assoc]

theorem places_append_singleton (excluded : List Nat) (cands : List Network) (c : Network) :
    places excluded (cands ++ [c]) =
      places excluded cands + if AsksPlace excluded cands c then 1 else 0 :=
  placesFrom_append_singleton excluded [] cands c

/-- While a place is free, a candidate takes it if it asks for one. -/
theorem asksPlace_iff (room : (takeRoutes excluded cands).length < 3) :
    AsksPlace excluded cands c ↔ c.avoid excluded ≠ none ∧ c ∉ takeRoutes excluded cands := by
  obtain ⟨inside, whole⟩ := routes_remainders excluded cands
  exact and_congr_right fun _ =>
    not_congr ⟨fun member => whole room member, fun member => inside member⟩

theorem takeRoutes_length (excluded : List Nat) (cands : List Network) :
    (takeRoutes excluded cands).length = min 3 (places excluded cands) := by
  induction cands using List.reverseRecOn with
  | nil => rfl
  | append_singleton cands c ih =>
      rw [takeRoutes_append_singleton, places_append_singleton]
      rcases takeRoute_cases excluded (takeRoutes excluded cands) c with
        ⟨same, reason⟩ | ⟨left, avoided, room, fresh, more⟩
      · rw [same, ih]
        by_cases room : (takeRoutes excluded cands).length < 3
        · rw [if_neg, Nat.add_zero]
          rw [asksPlace_iff room]
          rintro ⟨some, fresh⟩
          rcases reason with full | present | gone
          · omega
          · exact fresh present
          · exact some gone
        · omega
      · have asks : AsksPlace excluded cands c :=
          (asksPlace_iff room).mpr ⟨by rw [avoided]; exact Option.some_ne_none left, fresh⟩
        rw [more, List.length_append, List.length_singleton, if_pos asks]
        omega

/-- No candidate that holds an excluded address leaves what an earlier one left, unless
three candidates asked for a place before it. -/
def NoRepeat (excluded : List Nat) (cands : List Network) : Prop :=
  ∀ front c back, cands = front ++ c :: back → (∃ a ∈ c, a ∈ excluded) →
    ∀ left, c.avoid excluded = some left → left ∈ remainders excluded front →
      3 ≤ places excluded front

theorem noRepeat_append_singleton : NoRepeat excluded (cands ++ [c]) ↔ NoRepeat excluded cands ∧
    ((∃ a ∈ c, a ∈ excluded) → ∀ left, c.avoid excluded = some left →
      left ∈ remainders excluded cands → 3 ≤ places excluded cands) := by
  constructor
  · intro none
    refine ⟨fun front d back split => none front d (back ++ [c]) ?_, none cands c [] rfl⟩
    rw [split, List.append_assoc, List.cons_append]
  · rintro ⟨earlier, last⟩ front d back split
    rcases List.eq_nil_or_concat' back with rfl | ⟨back, e, rfl⟩
    · obtain ⟨rfl, same⟩ := List.append_inj' split rfl
      cases same
      exact last
    · rw [← List.cons_append, ← List.append_assoc] at split
      exact earlier front d back (List.append_inj' split rfl).1

/-- The candidate loop repeats a route only for such a candidate. -/
theorem takeRoutes_nodup_iff (excluded : List Nat) (cands : List Network) :
    (takeRoutes excluded cands).Nodup ↔ NoRepeat excluded cands := by
  induction cands using List.reverseRecOn with
  | nil =>
      refine ⟨fun _ front c back split => ?_, fun _ => List.nodup_nil⟩
      simp at split
  | append_singleton cands c ih =>
      rw [takeRoutes_append_singleton, noRepeat_append_singleton, ← ih]
      obtain ⟨inside, whole⟩ := routes_remainders excluded cands
      have length := takeRoutes_length excluded cands
      rcases takeRoute_cases excluded (takeRoutes excluded cands) c with
        ⟨same, reason⟩ | ⟨left, avoided, room, fresh, more⟩
      · rw [same]
        refine ⟨fun distinct => ⟨distinct, ?_⟩, And.left⟩
        rintro ⟨a, holds, member⟩ left avoided -
        rcases reason with full | present | gone
        · omega
        · exact absurd member (routes_clear excluded cands c present a holds)
        · rw [gone] at avoided
          cases avoided
      · rw [more, List.nodup_append_comm, List.singleton_append, List.nodup_cons, and_comm]
        refine and_congr_right fun _ => ?_
        constructor
        · intro new _ left' avoided' repeated
          rw [avoided, Option.some.injEq] at avoided'
          subst avoided'
          exact absurd (whole room repeated) new
        · intro rule repeated
          by_cases holds : ∃ a ∈ c, a ∈ excluded
          · have full := rule holds left avoided (inside repeated)
            omega
          · rw [Block.avoid_outside fun x member here => holds ⟨x, here, member⟩] at avoided
            cases avoided
            exact fresh repeated

theorem readCidr_networkText (b : Network) :
    readCidr (networkText b) = some (UInt32.ofNat b.net, b.length) :=
  readCidr_iff.mpr (isCidr_cidrText _ b.length_le)

theorem networkText_injective : Function.Injective (readCidr ∘ networkText) := by
  intro b c same
  simp only [Function.comp_apply, readCidr_networkText, Option.some.injEq, Prod.mk.injEq] at same
  refine keptOf_injective ?_
  rw [keptOf, keptOf, same.1, same.2]

/-- The routes of a plan are pairwise distinct exactly when no candidate is narrowed to
what an earlier one left. -/
theorem planWgRoutes_distinct (addressCidr : CString) (allowedIps : List CString) (sta : Station) :
    ∃ plan, planWgRoutes addressCidr allowedIps sta = some plan ∧
      ((plan.allowedCidr.map readCidr).Nodup ↔
        addressCidr.bind readCidr = none ∨ NoRepeat sta.excluded (candidates allowedIps)) := by
  cases read : addressCidr.bind readCidr with
  | none =>
      refine ⟨_, planWgRoutes_unreadable read allowedIps sta, fun _ => .inl rfl, fun _ => ?_⟩
      exact List.nodup_nil
  | some route =>
      obtain ⟨ip, bits⟩ := route
      refine ⟨_, planWgRoutes_eq read allowedIps sta, ?_⟩
      rw [List.map_map, List.nodup_map_iff networkText_injective, ← takeRoutes_nodup_iff]
      by_cases empty : takeRoutes sta.excluded (candidates allowedIps) = []
      · simp [empty]
      · simp [empty]

/-- A candidate around the board that is listed twice is planned twice. -/
theorem planWgRoutes_repeats :
    ∃ plan, planWgRoutes (some (text "10.0.0.2/32"))
        [some (text "192.168.1.0/24"), some (text "192.168.1.0/24")] ⟨0xC0A80105, 24, 0⟩ = some plan ∧
      plan.allowedCidr = [text "192.168.1.128/25", text "192.168.1.128/25"] ∧
      ¬ (plan.allowedCidr.map readCidr).Nodup := by
  refine ⟨_, rfl, rfl, ?_⟩
  decide

end FryFirmware.Wireguard
