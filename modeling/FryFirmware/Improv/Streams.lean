import FryFirmware.Improv.ParserProperties

/-!
# Every packet of a stream, and nothing else

The parser on a whole stream: the packets among log text are received once each and in
order, and on any stream at all nothing else is received.
-/

set_option autoImplicit false

namespace FryFirmware.Improv

open Lib

namespace Parser

variable {p : Parser} {b : UInt8} {r : Rpc} {rest : List UInt8}

theorem run_append (p : Parser) (front back : List UInt8) :
    p.run (front ++ back) = (p.run front).run back := List.foldl_append

theorem received_append (p : Parser) (front back : List UInt8) :
    p.received (front ++ back) = p.received front ++ (p.run front).received back := by
  induction front generalizing p with
  | nil => rfl
  | cons b front ih =>
      simp only [List.cons_append, received, run, List.foldl_cons]
      split
      · rw [ih, List.cons_append]
        rfl
      · rw [ih]
        rfl

/-- Nothing is received from text without a header. -/
theorem received_junk {junk : List UInt8} (inStep : p.InStep) (stage : p.stage = .header)
    (absent : ¬ kHeader <:+: p.begun ++ junk) :
    p.received junk = [] ∧ (p.run junk).stage = .header := by
  induction junk generalizing p with
  | nil => exact ⟨rfl, stage⟩
  | cons b junk ih =>
      obtain ⟨q, fed, after, begun, stages⟩ := feed_header (b := b) inStep stage
      have read : p.begun = kHeader.take p.headerIdx.toNat := by rw [Parser.begun, stage]
      rw [read] at absent
      obtain ⟨below, later⟩ := Needle.advance_absent (inStep.header stage) absent
      have header : q.stage = .header := by
        rcases stages with header | ⟨_, whole⟩
        · exact header
        · omega
      obtain ⟨silent, last⟩ := ih after header (by rw [begun]; exact later)
      simp only [received, run, List.foldl_cons, fed]
      exact ⟨by simpa using silent, last⟩

/-- A packet is never whole before its checksum is accepted. -/
theorem begun_ne_packet (inStep : p.InStep) (r : Rpc) : p.begun ≠ r.packet := by
  intro whole
  have total : r.packet.length = 10 + r.payload.length := length_packet _ _
  have short : p.begun.length < 9 → False := by
    intro less
    rw [whole, total] at less
    omega
  cases stage : p.stage with
  | header =>
      have below : p.headerIdx.toNat < 6 := inStep.header stage
      refine short ?_
      simp only [begun, stage, List.length_take]
      omega
  | version => exact short (by simp [begun, stage, kHeader])
  | type => exact short (by simp [begun, stage, kHeader])
  | length => exact short (by simp [begun, stage, kHeader])
  | payload =>
      have below : p.got.toNat < p.len.toNat := inStep.payload stage
      have fits := inStep.room (.inl stage)
      have length : (p.payload.window 0 p.got.toNat).length = p.got.toNat - 0 :=
        p.payload.window_length 0 (by omega)
      simp only [begun, stage, Rpc.packet, packet, frame, List.append_assoc,
        List.append_cancel_left_eq, List.cons_append, List.nil_append, List.cons.injEq,
        true_and] at whole
      obtain ⟨_, lengths, payloads⟩ := whole
      have counted := congrArg List.length payloads
      simp only [length, List.length_append, List.length_cons, List.length_nil] at counted
      have wide := r.payload_short
      rw [lengths] at below
      simp only [Nat.toUInt8, UInt8.toNat_ofNat'] at below
      omega
  | checksum =>
      obtain ⟨read, length⟩ := begun_checksum inStep stage
      have wide : (p.payload.window 0 p.len.toNat).length < 256 := by
        rw [length]
        exact p.len.toNat_lt
      rw [read, ← List.append_nil (frame _ _)] at whole
      cases (frame_inj wide r.payload_short whole).2.2

/-- Inside a packet every byte extends it, until the checksum completes it. -/
theorem feed_packet (inStep : p.InStep) (read : p.begun ++ b :: rest = r.packet) :
    (∃ q, p.feed b = (q, .none) ∧ q.InStep ∧ q.begun = p.begun ++ [b]) ∨
    (rest = [] ∧ ∃ q, p.feed b = (q, .rpc) ∧ (q.command, q.dataBytes) = r.content ∧
      q.InStep ∧ q.stage = .header ∧ q.begun = if kHeader.head? = some b then [b] else []) := by
  by_cases stage : p.stage = .header
  · have below := inStep.header stage
    have begun : p.begun = kHeader.take p.headerIdx.toNat := by rw [Parser.begun, stage]
    have letter : kHeader[p.headerIdx.toNat]? = some b := by
      have cell := congrArg (fun bytes => bytes[p.headerIdx.toNat]?) read
      have length : (kHeader.take p.headerIdx.toNat).length = p.headerIdx.toNat := by
        rw [List.length_take]
        omega
      simp only [begun, Rpc.packet, packet, frame, List.append_assoc] at cell
      rw [List.getElem?_append_right (by omega), List.getElem?_append_left below, length,
        Nat.sub_self] at cell
      exact cell.symm
    obtain ⟨q, fed, after, grown, _⟩ := feed_header (b := b) inStep stage
    rw [Needle.advance_next letter, Needle.take_succ_of_getElem? letter, ← begun] at grown
    exact .inl ⟨q, fed, after, grown⟩
  · have fed := feed_fed (b := b) inStep stage
    revert fed
    generalize p.feed b = outcome
    intro fed
    cases fed with
    | extended after begun _ => exact .inl ⟨_, rfl, after, begun⟩
    | restarted _ _ dead => exact absurd read (dead r rest)
    | accepted r' complete content after header begun =>
        rw [← List.singleton_append, ← List.append_assoc, complete] at read
        obtain ⟨rfl, done⟩ := Rpc.packet_append_inj read
        exact .inr ⟨done, _, rfl, content, after, header, begun.trans (begun_restart p .none b)⟩

/-- A parser between packets, with the last byte of the stream when that begins a header. -/
structure Between (p : Parser) (last : UInt8) : Prop where
  inStep : p.InStep
  stage : p.stage = .header
  begun : p.begun = if kHeader.head? = some last then [last] else []

theorem received_rest (inStep : p.InStep) (read : p.begun ++ rest = r.packet) :
    p.received rest = [r.content] ∧
      (p.run rest).Between (checksum (frame kTypeRpc r.payload)) := by
  induction rest generalizing p with
  | nil => exact absurd (by simpa using read) (begun_ne_packet inStep r)
  | cons b rest ih =>
      simp only [received, run, List.foldl_cons]
      rcases feed_packet inStep read with
        ⟨q, fed, after, begun⟩ | ⟨rfl, q, fed, content, after, header, begun⟩
      · have further : q.begun ++ rest = r.packet := by
          rw [begun, List.append_assoc, List.singleton_append, read]
        simpa [fed, run] using ih after further
      · have last : b = checksum (frame kTypeRpc r.payload) := by
          have ends := congrArg List.getLast? read
          simpa [Rpc.packet, packet] using ends
        rw [fed]
        simp only [if_true, List.foldl_nil, content]
        exact ⟨rfl, after, header, last ▸ begun⟩

/-- A packet is received wherever the search for a header stands. -/
theorem received_packet (inStep : p.InStep) (stage : p.stage = .header) (r : Rpc) :
    p.received r.packet = [r.content] ∧
      (p.run r.packet).Between (checksum (frame kTypeRpc r.payload)) := by
  have split : r.packet = 0x49 :: (kHeader.tail ++ r.packet.drop 6) := rfl
  obtain ⟨q, fed, after, begun, _⟩ := feed_header (b := 0x49) inStep stage
  have first : Needle.advance kHeader p.headerIdx.toNat 0x49 = 1 :=
    Needle.advance_first (by decide) _
  rw [first] at begun
  have read : q.begun ++ (kHeader.tail ++ r.packet.drop 6) = r.packet := by
    rw [begun]
    exact split.symm
  have received := received_rest after read
  rw [split]
  simpa [Parser.received, run, fed] using received

/-- Clean text after a packet has no header, also with the checksum before it. -/
theorem Between.absent {s : Segment} (clean : s.Clean)
    (between : p.Between (checksum (frame kTypeRpc s.rpc.payload))) :
    ¬ kHeader <:+: p.begun ++ s.junk := by
  obtain ⟨absent, beginning⟩ := clean
  rw [between.begun]
  split
  · next first =>
    have letter : checksum (frame kTypeRpc s.rpc.payload) = 0x49 := by
      simpa [kHeader] using first.symm
    intro occurs
    rcases List.infix_cons_iff.mp occurs with starts | inside
    · refine beginning letter ?_
      rw [letter] at starts
      exact (List.cons_prefix_cons.mp starts).2
    · exact absent inside
  · exact absent

theorem received_segments {lead : List UInt8} (segments : List Segment) (inStep : p.InStep)
    (stage : p.stage = .header) (absent : ¬ kHeader <:+: p.begun ++ lead)
    (clean : ∀ s ∈ segments, s.Clean) :
    p.received (lead ++ segments.flatMap Segment.bytes) =
      segments.map fun s => s.rpc.content := by
  have after := (run_begun inStep lead).1
  obtain ⟨silent, header⟩ := received_junk inStep stage absent
  rw [received_append, silent, List.nil_append]
  induction segments generalizing p lead with
  | nil => rfl
  | cons s segments ih =>
      obtain ⟨received, between⟩ := received_packet after header s.rpc
      have first := between.absent (clean s List.mem_cons_self)
      have later := ih between.inStep between.stage first
        (fun t member => clean t (List.mem_cons_of_mem s member))
        (run_begun between.inStep s.junk).1
      obtain ⟨quiet, last⟩ := received_junk between.inStep between.stage first
      rw [List.flatMap_cons, Segment.bytes, List.append_assoc, received_append, received,
        received_append, quiet, List.nil_append, List.map_cons]
      exact congrArg (s.rpc.content :: ·) (later quiet last)

end Parser

/-- The packets of a stream are received once each and in order; on any stream an `Rpc`
result ends a whole packet with that content, the payload index stays in the buffer, and
132 bytes are enough to be back at the header. -/
theorem feed_packets (memory : Memory UInt8 kMaxPayload) :
    (∀ lead (segments : List Segment), ¬ kHeader <:+: lead → (∀ s ∈ segments, s.Clean) →
      (Parser.start memory).received (lead ++ segments.flatMap Segment.bytes) =
        segments.map fun s => s.rpc.content) ∧
    (∀ stream b, (((Parser.start memory).run stream).feed b).2 = .rpc →
      ∃ r : Rpc, r.packet <:+ stream ++ [b] ∧
        r.content = ((((Parser.start memory).run stream).feed b).1.command,
          (((Parser.start memory).run stream).feed b).1.dataBytes)) ∧
    (∀ stream, ((Parser.start memory).run stream).stage = .payload →
      ((Parser.start memory).run stream).got.toNat < kMaxPayload) ∧
    (∀ (stream more : List UInt8), 132 ≤ more.length → ∃ k ≤ 132,
      ((Parser.start memory).run (stream ++ more.take k)).stage = .header) := by
  have fresh := Parser.inStep_start memory
  refine ⟨?_, ?_, ?_, ?_⟩
  · intro lead segments absent clean
    exact Parser.received_segments segments fresh rfl absent clean
  · intro stream b rpc
    obtain ⟨inStep, begun⟩ := Parser.run_begun fresh stream
    obtain ⟨r, read, content⟩ := Parser.feed_rpc inStep rpc
    refine ⟨r, ?_, content.symm⟩
    obtain ⟨before, split⟩ := begun
    rw [Parser.begun_start, List.nil_append] at split
    exact ⟨before, by rw [read, ← List.append_assoc, split]⟩
  · intro stream stage
    obtain ⟨inStep, _⟩ := Parser.run_begun fresh stream
    have below : _ < UInt8.toNat _ := inStep.payload stage
    exact Nat.lt_of_lt_of_le below (inStep.room (.inl stage))
  · intro stream more long
    obtain ⟨inStep, _⟩ := Parser.run_begun fresh stream
    by_cases inside : ((Parser.start memory).run stream).stage = .header
    · exact ⟨0, Nat.zero_le _, by simpa using inside⟩
    · have begun : 6 ≤ _ := (Parser.begun_length inStep inside).1
      obtain ⟨k, bound, header⟩ := Parser.header_within more inStep inside
        (by simp only [kMaxPacket, kMaxPayload]; omega)
      simp only [kMaxPacket, kMaxPayload] at bound
      exact ⟨k, by omega, by rw [Parser.run_append]; exact header⟩

theorem feed_packets_logText :
    (Parser.start (Memory.filled kMaxPayload 0)).received
        ([0x49, 0x4D, 0x50] ++ [(⟨⟨0x02, [], by decide⟩, [0x0D, 0x0A]⟩ : Segment),
          ⟨⟨0xF0, [0x01, 0x41], by decide⟩, []⟩].flatMap Segment.bytes) =
      [(0x02, []), (0xF0, [0x01, 0x41])] ∧
    (∃ r : Rpc, r.packet <:+ kHeader ++ [0x01, 0x03, 0x02, 0x02, 0x00] ++ [0xE5] ∧
      r.content = (0x02, [])) ∧
    ((Parser.start (Memory.filled kMaxPayload 0)).run
      (kHeader ++ [0x01, 0x03, 0x02])).got.toNat < kMaxPayload ∧
    ∃ k ≤ 132, ((Parser.start (Memory.filled kMaxPayload 0)).run
      ((kHeader ++ [0x01]) ++ (List.replicate 132 0x49).take k)).stage = .header := by
  obtain ⟨packets, sound, index, back⟩ := feed_packets (Memory.filled kMaxPayload 0)
  refine ⟨?_, sound _ _ (by decide +kernel), index _ (by decide +kernel), back _ _ (by simp)⟩
  exact packets [0x49, 0x4D, 0x50] [⟨⟨0x02, [], by decide⟩, [0x0D, 0x0A]⟩,
    ⟨⟨0xF0, [0x01, 0x41], by decide⟩, []⟩] (by decide) (by decide +kernel)

end FryFirmware.Improv
