import FryFirmware.Lib.HttpFields
import FryFirmware.Olostep.Literals
import Mathlib.Data.List.Basic
import Mathlib.Tactic.Common

/-!
# Headers that go out

What is left of a header map on its way out, and what a job without credentials may carry.
-/

set_option autoImplicit false

namespace FryFirmware.Olostep

open Lib Lib.HttpFields
open Config (Text text)

/-! ## Names -/

theorem headerChar_byte : ∀ c : UInt8, lowerChar (lowerChar c) = lowerChar c ∧ tokenChar c = tchar c :=
  forall_byte (by decide +kernel)

theorem lowerChar_lowerChar (c : UInt8) : lowerChar (lowerChar c) = lowerChar c := (headerChar_byte c).1

theorem lower_lower (s : Text) : lower (lower s) = lower s := by
  rw [lower, lower, List.map_map]
  exact List.map_congr_left fun c _ => lowerChar_lowerChar c

theorem tokenChar_eq (c : UInt8) : tokenChar c = tchar c := (headerChar_byte c).2

theorem isTokenName_eq (s : Text) : isTokenName s = isToken s := by
  rw [isTokenName, isToken, funext tokenChar_eq]

theorem trim_eq (s : Text) : Olostep.trim s = HttpFields.trim s := rfl

/-! ## What is left -/

/-- A header that may go out for a class of jobs. -/
structure Outbound (cls : OlostepJobClass) (header : Text × Text) : Prop where
  token : isToken header.1 = true
  lowered : lower header.1 = header.1
  plainName : hasControlChar header.1 = false
  plainValue : hasControlChar header.2 = false
  listed : cls ≠ .AuthenticatedPartner → header.1 ∈ kAllow
  unframed : cls = .AuthenticatedPartner → header.1 ∉ kFraming

theorem Outbound.trimLower {cls : OlostepJobClass} {header : Text × Text} (outbound : Outbound cls header) :
    trimLower header.1 = header.1 := by
  rw [Olostep.trimLower, trim_eq, trim_token outbound.token, outbound.lowered]

/-- What one entry does: nothing, or it is written under its own name. -/
theorem sanitizeEntry_cases (cls : OlostepJobClass) (out : HeaderMap) (kv : Text × Text) :
    sanitizeEntry cls out kv = out ∨
      Outbound cls (trimLower kv.1, kv.2) ∧ sanitizeEntry cls out kv = out.set (trimLower kv.1) kv.2 := by
  unfold sanitizeEntry
  dsimp only
  split
  · exact .inl rfl
  · next plain =>
    rw [Bool.or_eq_true, not_or, Bool.not_eq_true, Bool.not_eq_true] at plain
    split
    · exact .inl rfl
    · next token =>
      rw [isTokenName_eq, Bool.not_eq_true', Bool.not_eq_false] at token
      split
      · next partner =>
        split
        · exact .inl rfl
        · next unframed =>
          refine .inr ⟨⟨token, lower_lower _, plain.1, plain.2, fun other => absurd partner other, ?_⟩, rfl⟩
          exact fun _ member => unframed (List.contains_iff_mem.mpr member)
      · next other =>
        split
        · next listed =>
          refine .inr ⟨⟨token, lower_lower _, plain.1, plain.2, ?_, fun partner => absurd partner other⟩, rfl⟩
          exact fun _ => List.contains_iff_mem.mp listed
        · exact .inl rfl

theorem sanitizeEntry_outbound {cls : OlostepJobClass} {kv : Text × Text} (outbound : Outbound cls kv)
    (out : HeaderMap) : sanitizeEntry cls out kv = out.set kv.1 kv.2 := by
  unfold sanitizeEntry
  rw [outbound.trimLower]
  dsimp only
  rw [outbound.plainName, outbound.plainValue, isTokenName_eq, outbound.token]
  split
  · cases ‹_›
  · split
    · cases ‹_›
    · split
      · next partner => exact if_neg fun framing =>
          outbound.unframed partner (List.contains_iff_mem.mp framing)
      · next other => exact if_pos (List.contains_iff_mem.mpr (outbound.listed other))

theorem foldl_outbound {cls : OlostepJobClass} (entries : List (Text × Text)) {out : HeaderMap}
    (known : ∀ header ∈ out.entries, Outbound cls header) :
    ∀ header ∈ (entries.foldl (sanitizeEntry cls) out).entries, Outbound cls header := by
  induction entries generalizing out with
  | nil => exact known
  | cons kv entries ih =>
      refine ih ?_
      rcases sanitizeEntry_cases cls out kv with same | ⟨outbound, written⟩
      · rw [same]
        exact known
      · rw [written]
        intro header member
        rcases mem_insertEntry member with rfl | old
        · exact outbound
        · exact known header old

theorem sanitize_outbound (headers : HeaderMap) (cls : OlostepJobClass) :
    ∀ header ∈ (olostep_sanitize_outbound_headers headers cls).entries, Outbound cls header :=
  foldl_outbound headers.entries nofun

theorem foldl_outbound_entries {cls : OlostepJobClass} {entries : List (Text × Text)} (out : HeaderMap)
    (outbound : ∀ header ∈ entries, Outbound cls header) :
    (entries.foldl (sanitizeEntry cls) out).entries =
      entries.foldl (fun entries entry => insertEntry entry.1 entry.2 entries) out.entries := by
  induction entries generalizing out with
  | nil => rfl
  | cons kv entries ih =>
      rw [List.foldl_cons, List.foldl_cons, sanitizeEntry_outbound (outbound kv List.mem_cons_self),
        ih _ fun header member => outbound header (List.mem_cons_of_mem _ member)]
      rfl

/-- A map of such headers stays as it is. -/
theorem sanitize_of_outbound {cls : OlostepJobClass} {headers : HeaderMap}
    (outbound : ∀ header ∈ headers.entries, Outbound cls header) :
    olostep_sanitize_outbound_headers headers cls = headers := by
  refine SortedMap.ext ?_
  rw [olostep_sanitize_outbound_headers, foldl_outbound_entries _ outbound]
  exact @foldl_insertEntry _ _ _ _ [] headers.entries headers.ordered

/-! ## Credentials -/

/-- A name that says it carries a credential or a session. -/
def CredentialLike (name : Text) : Prop :=
  trimLower name = [] ∨ (∃ word ∈ authWords, word <:+: trimLower name) ∨ text "-key" <:+ trimLower name

theorem contains_iff {s needle : Text} : contains s needle = true ↔ needle <:+: s := by
  constructor
  · intro found
    obtain ⟨i, place⟩ := Option.isSome_iff_exists.mp found
    obtain ⟨front, back, rfl, -⟩ := find_some place
    exact ⟨front, back, rfl⟩
  · intro inside
    induction s with
    | nil => simp [contains, find, List.infix_nil.mp inside]
    | cons c s ih =>
        unfold contains find
        split
        · rfl
        · next other =>
          rw [Option.isSome_map]
          rcases List.infix_cons_iff.mp inside with here | later
          · exact absurd (List.isPrefixOf_iff_prefix.mpr here) other
          · exact ih later

theorem endsWith_iff {s tail : Text} : endsWith s tail = true ↔ tail <:+ s := by
  unfold endsWith
  rw [Bool.and_eq_true, decide_eq_true_eq, decide_eq_true_eq, List.suffix_iff_eq_drop]
  constructor
  · exact fun both => both.2.symm
  · intro same
    refine ⟨?_, same.symm⟩
    have shorter := congrArg List.length same
    rw [List.length_drop] at shorter
    omega

theorem isAuthHeader_iff {name : Text} : isAuthHeader name = true ↔ CredentialLike name := by
  unfold isAuthHeader CredentialLike
  dsimp only
  rw [Bool.or_eq_true, Bool.or_eq_true, decide_eq_true_eq, List.any_eq_true, or_assoc, endsWith_iff]
  simp only [contains_iff]

/-- A job that goes out without anyone's session. -/
structure Anonymous (job : Job) : Prop where
  session : job.session_id = []
  lease : job.lease_node = []
  headers : ∀ header ∈ job.method_headers.entries, ¬ CredentialLike header.1
  urls : ∀ url ∈ job.urls, url ≠ [] → olostep_url_allowed url = true

theorem anonymous_of_class {job : Job}
    (cls : olostep_job_classify_and_permit job = .Unauthenticated) : Anonymous job := by
  unfold olostep_job_classify_and_permit at cls
  dsimp only at cls
  split at cls
  · cases cls
  · split at cls
    · cases cls
    · next sessions =>
      split at cls
      · cases cls
      · next names =>
        iterate 3
          split at cls
          · cases cls
        split at cls
        · cases cls
        · next urls =>
          simp only [cls, reduceCtorEq, decide_false, Bool.not_false, Bool.true_and, Bool.or_eq_true,
            decide_eq_true_eq, not_or, not_not] at sessions
          refine ⟨sessions.1, sessions.2, fun header member like => names ?_, fun url carried filled => ?_⟩
          · refine List.any_eq_true.mpr ⟨header, member, ?_⟩
            simp [cls, isAuthHeader_iff.mpr like]
          · by_contra refused
            exact urls (List.any_eq_true.mpr ⟨url, carried, by simp [filled, refused]⟩)

/-- Whatever the header map and the class, the headers that go out are what a recipient reads
from their lines, none of them framing or, outside the partner class, off the list; and a job
without credentials has none. -/
theorem headers_safe :
    (∀ (headers : HeaderMap) (cls : OlostepJobClass),
      let out := olostep_sanitize_outbound_headers headers cls
      (∀ header ∈ out.entries, isToken header.1 = true ∧ lower header.1 = header.1 ∧
        hasControlChar header.1 = false ∧ hasControlChar header.2 = false) ∧
      readBlock (block out.entries) =
        some (out.entries.map fun header => (header.1, HttpFields.trim header.2)) ∧
      (cls ≠ .AuthenticatedPartner → ∀ header ∈ out.entries, header.1 ∈ kAllow) ∧
      (cls = .AuthenticatedPartner → ∀ header ∈ out.entries, trimLower header.1 ∉ kFraming) ∧
      olostep_sanitize_outbound_headers out cls = out) ∧
    ∀ job : Job, olostep_job_classify_and_permit job = .Unauthenticated → Anonymous job := by
  refine ⟨fun headers cls => ?_, fun job => anonymous_of_class⟩
  have outbound := sanitize_outbound headers cls
  refine ⟨?_, ?_, ?_, ?_, sanitize_of_outbound outbound⟩
  · intro header member
    obtain ⟨token, lowered, plainName, plainValue, -, -⟩ := outbound header member
    exact ⟨token, lowered, plainName, plainValue⟩
  · refine readBlock_block (fun header member => (outbound header member).token) fun header member feed => ?_
    have plain := (outbound header member).plainValue
    rw [hasControlChar, List.any_eq_false] at plain
    exact absurd rfl (plain 10 feed)
  · exact fun other header member => (outbound header member).listed other
  · intro partner header member
    rw [(outbound header member).trimLower]
    exact (outbound header member).unframed partner

/-- One fetch and nothing else. -/
def fetchJob : Job where
  method_endpoint := text "https://pictures.example/a.png"
  url := []
  userAgent := []
  type_event := text "batch"
  method_headers := SortedMap.empty.set (text "Accept") (text "image/png")
  session_id := []
  lease_node := []
  actions := []
  runScript := []
  burkeObject := []
  cerealObject := []
  saveFile := []
  htmlVisualizer := []
  save_html_endpoint := []
  error_callback_endpoint := []

theorem headers_safe_fetch : Anonymous fetchJob :=
  headers_safe.2 fetchJob (by decide +kernel)

end FryFirmware.Olostep
