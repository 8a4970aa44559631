import FryFirmware.Improv.Packet
import FryFirmware.Lib.Needle

/-!
# The parser finds the packets of a stream

What a parser in the middle of a packet has read is a function of its state and
the end of the stream so far. Completeness, soundness and the bound on the way
back to the header all follow from that.
-/

set_option autoImplicit false

namespace FryFirmware.Improv

open Lib

theorem byteSum_append (bytes : List UInt8) (b : UInt8) :
    byteSum (bytes ++ [b]) = byteSum bytes + b.toUInt32 := by
  simp [byteSum]

theorem length_frame (type : UInt8) (payload : List UInt8) :
    (frame type payload).length = 9 + payload.length := by
  simp only [frame, kHeader, List.length_append, List.length_cons, List.length_nil]

theorem length_packet (type : UInt8) (payload : List UInt8) :
    (packet type payload).length = 10 + payload.length := by
  simp only [packet, List.length_append, length_frame, List.length_cons, List.length_nil]
  omega

theorem toUInt8_inj {m n : Nat} (left : m < 256) (right : n < 256)
    (same : m.toUInt8 = n.toUInt8) : m = n := by
  have values := congrArg UInt8.toNat same
  simp only [Nat.toUInt8, UInt8.toNat_ofNat'] at values
  omega

/-- A frame says where it ends. -/
theorem frame_inj {type type' : UInt8} {payload payload' after after' : List UInt8}
    (short : payload.length < 256) (short' : payload'.length < 256)
    (same : frame type payload ++ after = frame type' payload' ++ after') :
    type = type' ∧ payload = payload' ∧ after = after' := by
  simp only [frame, List.append_assoc, List.append_cancel_left_eq, List.cons_append,
    List.nil_append, List.cons.injEq, true_and] at same
  obtain ⟨types, lengths, tails⟩ := same
  exact ⟨types, List.append_inj tails (toUInt8_inj short short' lengths)⟩

theorem Rpc.length_payload (r : Rpc) : r.payload.length = 2 + r.data.length := by
  simp only [payload, List.length_cons]
  omega

theorem Rpc.payload_short (r : Rpc) : r.payload.length < 256 := by
  have fits := r.fits
  simp only [kMaxPayload] at fits
  rw [r.length_payload]
  omega

theorem Rpc.packet_append_inj {r r' : Rpc} {rest : List UInt8}
    (same : r'.packet ++ rest = r.packet) : r' = r ∧ rest = [] := by
  simp only [Rpc.packet, Improv.packet, List.append_assoc] at same
  obtain ⟨_, payloads, tails⟩ := frame_inj r'.payload_short r.payload_short same
  rw [List.singleton_append] at tails
  refine ⟨?_, (List.cons.inj tails).2⟩
  cases r
  cases r'
  simp only [payload, List.cons.injEq] at payloads
  obtain ⟨rfl, _, rfl⟩ := payloads
  rfl

namespace Parser

variable {p : Parser} {b : UInt8} {r : Rpc} {rest bytes : List UInt8}

/-- The bytes of the packet being read. -/
def begun (p : Parser) : List UInt8 :=
  match p.stage with
  | .header => kHeader.take p.headerIdx.toNat
  | .version => kHeader
  | .type => kHeader ++ [kVersion]
  | .length => kHeader ++ [kVersion, p.type]
  | .payload => kHeader ++ [kVersion, p.type, p.len] ++ p.payload.window 0 p.got.toNat
  | .checksum => kHeader ++ [kVersion, p.type, p.len] ++ p.payload.window 0 p.len.toNat

structure InStep (p : Parser) : Prop where
  sum : p.sum = byteSum p.begun
  header : p.stage = .header → p.headerIdx.toNat < kHeader.length
  payload : p.stage = .payload → p.got < p.len
  room : p.stage = .payload ∨ p.stage = .checksum → p.len.toNat ≤ kMaxPayload

theorem inStep_start (memory : Memory UInt8 kMaxPayload) : (start memory).InStep where
  sum := rfl
  header _ := (by decide : 0 < kHeader.length)
  payload reading := by cases reading
  room reading := by rcases reading with reading | reading <;> cases reading

theorem begun_start (memory : Memory UInt8 kMaxPayload) : (start memory).begun = [] := rfl

/-! ## One byte in each stage -/

/-- What `restart` leaves: at most the first letter of a header. -/
theorem begun_restart (p : Parser) (result : Result) (b : UInt8) :
    (p.restart result b).1.begun = if kHeader.head? = some b then [b] else [] := by
  simp only [restart, begun]
  split
  · next again => exact Needle.take_one_of_head? again
  · rfl

theorem inStep_restart (p : Parser) (result : Result) (b : UInt8) :
    (p.restart result b).1.InStep where
  sum := by
    rw [begun_restart]
    simp only [restart]
    split <;> simp [byteSum]
  header _ := by
    simp only [restart]
    split <;> decide
  payload reading := by cases reading
  room reading := by rcases reading with reading | reading <;> cases reading

theorem restart_suffix (p : Parser) (result : Result) (b : UInt8) :
    (p.restart result b).1.begun <:+ p.begun ++ [b] := by
  rw [begun_restart]
  split
  · exact List.suffix_append _ _
  · exact List.nil_suffix

/-- A byte in the header stage moves the matcher by one step. -/
theorem feed_header (inStep : p.InStep) (stage : p.stage = .header) :
    ∃ q, p.feed b = (q, .none) ∧ q.InStep ∧
      q.begun = kHeader.take (Needle.advance kHeader p.headerIdx.toNat b) ∧
      (q.stage = .header ∨
        q.stage = .version ∧ Needle.advance kHeader p.headerIdx.toNat b = kHeader.length) := by
  have below := inStep.header stage
  have sum : p.sum = byteSum (kHeader.take p.headerIdx.toNat) := by
    rw [inStep.sum, begun, stage]
  by_cases same : kHeader[p.headerIdx.toNat]? = some b
  · have moved := Needle.advance_next same
    have taken := Needle.take_succ_of_getElem? same
    have counted : (p.headerIdx + 1).toNat = p.headerIdx.toNat + 1 := by
      simp only [kHeader, List.length_cons, List.length_nil] at below
      rw [UInt8.toNat_add]
      simp only [UInt8.toNat_one]
      omega
    have added : p.sum + b.toUInt32 = byteSum (kHeader.take (p.headerIdx.toNat + 1)) := by
      rw [taken, byteSum_append, sum]
    simp only [feed, stage, same, if_true, counted, moved]
    by_cases complete : p.headerIdx.toNat + 1 = kHeader.length
    · have whole : kHeader.take (p.headerIdx.toNat + 1) = kHeader :=
        List.take_of_length_le (by omega)
      refine ⟨_, rfl, ⟨?_, ?_, ?_, ?_⟩, ?_, ?_⟩
      · simp only [begun, complete, if_true, added, List.take_length]
      all_goals simp [begun, complete]
    · refine ⟨_, rfl, ⟨?_, ?_, ?_, ?_⟩, ?_, ?_⟩
      · simp only [begun, complete, if_false, added, counted]
      · intro _
        simp only [counted]
        omega
      all_goals simp [begun, complete, counted]
  · have moved : Needle.advance kHeader p.headerIdx.toNat b =
        if kHeader.head? = some b then 1 else 0 := by
      simp [Needle.advance, same]
    refine ⟨(p.restart .none b).1, ?_, inStep_restart p .none b, ?_, .inl rfl⟩
    · simp only [feed, stage, same, if_false]
      rfl
    · rw [begun_restart, moved]
      split
      · next again => exact (Needle.take_one_of_head? again).symm
      · rfl

/-- What a byte does inside a packet: it extends what was read, it shows that this is
no RPC packet, or it completes one. -/
inductive Fed (p : Parser) (b : UInt8) : Parser × Result → Prop where
  | extended {q : Parser} (inStep : q.InStep) (begun : q.begun = p.begun ++ [b])
      (inside : q.stage ≠ .header) : Fed p b (q, .none)
  | restarted (result : Result) (silent : result ≠ .rpc)
      (dead : ∀ (r : Rpc) rest, p.begun ++ b :: rest ≠ r.packet) : Fed p b (p.restart result b)
  | accepted {q : Parser} (r : Rpc) (complete : p.begun ++ [b] = r.packet)
      (content : (q.command, q.dataBytes) = r.content) (inStep : q.InStep)
      (stage : q.stage = .header) (begun : q.begun = (p.restart .none b).1.begun) :
      Fed p b (q, .rpc)

theorem Fed.extend {q : Parser} (inStep : p.InStep) (sum : q.sum = p.sum + b.toUInt32)
    (begun : q.begun = p.begun ++ [b]) (inside : q.stage ≠ .header)
    (payload : q.stage = .payload → q.got < q.len)
    (room : q.stage = .payload ∨ q.stage = .checksum → q.len.toNat ≤ kMaxPayload) :
    Fed p b (q, .none) := by
  refine .extended ⟨?_, fun header => absurd header inside, payload, room⟩ begun inside
  rw [begun, byteSum_append, sum, inStep.sum]

theorem fed_version (inStep : p.InStep) (stage : p.stage = .version) : Fed p b (p.feed b) := by
  have read : p.begun = kHeader := by rw [begun, stage]
  simp only [feed, stage]
  by_cases version : b = kVersion
  · subst version
    simp only [ne_eq, not_true_eq_false, if_false]
    exact .extend inStep rfl (by rw [read]; rfl) nofun nofun (by simp)
  · simp only [ne_eq, version, not_false_eq_true, if_true]
    refine .restarted .malformed (by decide) fun r rest same => version ?_
    simp only [read, Rpc.packet, packet, frame, List.append_assoc, List.append_cancel_left_eq,
      List.cons_append, List.cons.injEq] at same
    exact same.1

theorem fed_type (inStep : p.InStep) (stage : p.stage = .type) : Fed p b (p.feed b) := by
  have read : p.begun = kHeader ++ [kVersion] := by rw [begun, stage]
  simp only [feed, stage]
  exact .extend inStep rfl (by rw [read]; rfl) nofun nofun (by simp)

theorem fed_length (inStep : p.InStep) (stage : p.stage = .length) : Fed p b (p.feed b) := by
  have read : p.begun = kHeader ++ [kVersion, p.type] := by rw [begun, stage]
  simp only [feed, stage]
  by_cases long : b.toNat > kMaxPayload
  · simp only [long, if_true]
    refine .restarted .malformed (by decide) fun r rest same => ?_
    simp only [read, Rpc.packet, packet, frame, List.append_assoc, List.append_cancel_left_eq,
      List.cons_append, List.nil_append, List.cons.injEq, true_and] at same
    have fits := r.fits
    have length := congrArg UInt8.toNat same.2.1
    rw [r.length_payload] at length
    simp only [Nat.toUInt8, UInt8.toNat_ofNat', kMaxPayload] at length long fits
    omega
  · simp only [long, if_false]
    by_cases empty : b = 0
    · subst empty
      simp only [ne_eq, not_true_eq_false, if_false]
      exact .extend inStep rfl (by rw [read]; simp [begun]) nofun nofun (fun _ => by simp)
    · simp only [ne_eq, empty, not_false_eq_true, if_true]
      refine .extend inStep rfl (by rw [read]; simp [begun]) nofun (fun _ => ?_) fun _ => ?_
      · exact UInt8.pos_iff_ne_zero.mpr empty
      · exact Nat.le_of_not_gt long

theorem fed_payload (inStep : p.InStep) (stage : p.stage = .payload) : Fed p b (p.feed b) := by
  have read : p.begun =
      kHeader ++ [kVersion, p.type, p.len] ++ p.payload.window 0 p.got.toNat := by
    rw [begun, stage]
  have below : p.got.toNat < p.len.toNat := inStep.payload stage
  have room := inStep.room (.inl stage)
  have counted : (p.got + 1).toNat = p.got.toNat + 1 := by
    rw [UInt8.toNat_add]
    have bound := p.len.toNat_lt
    simp only [UInt8.toNat_one]
    omega
  have stored := p.payload.window_store_append [b] (Nat.zero_le p.got.toNat)
    (by simp only [List.length_cons, List.length_nil]; omega)
  simp only [List.length_cons, List.length_nil, Nat.zero_add] at stored
  simp only [feed, stage]
  by_cases last : p.got + 1 = p.len
  · simp only [last, if_true]
    refine .extend inStep rfl ?_ nofun nofun fun _ => room
    have length : p.len.toNat = p.got.toNat + 1 := by rw [← last, counted]
    rw [read, List.append_assoc, ← stored, begun, length]
  · simp only [last, if_false]
    refine .extend inStep rfl ?_ nofun (fun _ => ?_) fun _ => room
    · rw [read, List.append_assoc, ← stored, begun, counted]
    · have different : (p.got + 1).toNat ≠ p.len.toNat := fun same => last (UInt8.toNat_inj.mp same)
      show (p.got + 1).toNat < p.len.toNat
      omega

/-- In the checksum stage a whole frame has been read. -/
theorem begun_checksum (inStep : p.InStep) (stage : p.stage = .checksum) :
    p.begun = frame p.type (p.payload.window 0 p.len.toNat) ∧
      (p.payload.window 0 p.len.toNat).length = p.len.toNat := by
  have length := p.payload.window_length 0 (inStep.room (.inr stage))
  rw [Nat.sub_zero] at length
  refine ⟨?_, length⟩
  simp only [begun, stage, frame, length, Nat.toUInt8, UInt8.ofNat_toNat]

/-- A payload of two bytes or more: the command, the length and the data. -/
theorem window_payload (memory : Memory UInt8 kMaxPayload) {len : Nat} (two : 2 ≤ len)
    (room : len ≤ kMaxPayload) :
    memory.window 0 len =
      memory.cells.getD 0 0 :: memory.cells.getD 1 0 :: memory.window 2 len := by
  obtain ⟨cells, size⟩ := memory
  match cells with
  | [] => simp [kMaxPayload] at size
  | [_] => simp [kMaxPayload] at size
  | a :: c :: cells =>
      obtain ⟨k, rfl⟩ := Nat.exists_eq_add_of_le two
      simp [Memory.window, Nat.add_comm 2 k]

/-- The two checks of the checksum stage on the payload are exact. -/
theorem payload_malformed {memory : Memory UInt8 kMaxPayload} {len : UInt8}
    (room : len.toNat ≤ kMaxPayload)
    (malformed : len < 2 ∨ len - 2 ≠ memory.cells.getD 1 0) (r : Rpc) :
    memory.window 0 len.toNat ≠ r.payload := by
  intro same
  have lengths := congrArg List.length same
  rw [r.length_payload, memory.window_length 0 room, Nat.sub_zero] at lengths
  have two : 2 ≤ len.toNat := by omega
  rw [window_payload memory two room] at same
  simp only [Rpc.payload, List.cons.injEq] at same
  rcases malformed with short | different
  · have : len.toNat < 2 := short
    omega
  · refine different ?_
    rw [same.2.1]
    have length : r.data.length = len.toNat - 2 := by omega
    apply UInt8.toNat_inj.mp
    rw [UInt8.toNat_sub_of_le _ _ two, length]
    have bound := len.toNat_lt
    simp only [Nat.toUInt8, UInt8.toNat_ofNat', UInt8.reduceToNat]
    omega

theorem payload_wellFormed {memory : Memory UInt8 kMaxPayload} {len : UInt8}
    (room : len.toNat ≤ kMaxPayload)
    (sound : ¬ (len < 2 ∨ len - 2 ≠ memory.cells.getD 1 0)) :
    ∃ r : Rpc, memory.window 0 len.toNat = r.payload ∧
      r.content = (memory.cells.getD 0 0,
        memory.window 2 (2 + (memory.cells.getD 1 0).toNat)) := by
  obtain ⟨long, same⟩ := not_or.mp sound
  have two : 2 ≤ len.toNat := Nat.le_of_not_lt long
  have second : memory.cells.getD 1 0 = len - 2 := (not_not.mp same).symm
  have count : (memory.cells.getD 1 0).toNat = len.toNat - 2 := by
    rw [second, UInt8.toNat_sub_of_le _ _ two]
    rfl
  have length := memory.window_length 2 room
  refine ⟨⟨memory.cells.getD 0 0, memory.window 2 len.toNat, by rw [length]; omega⟩, ?_, ?_⟩
  · rw [window_payload memory two room]
    simp only [Rpc.payload, length, ← count, Nat.toUInt8, UInt8.ofNat_toNat]
  · simp only [Rpc.content, count, Nat.add_sub_cancel' two]

theorem fed_checksum (inStep : p.InStep) (stage : p.stage = .checksum) : Fed p b (p.feed b) := by
  obtain ⟨read, length⟩ := begun_checksum inStep stage
  have room := inStep.room (.inr stage)
  have short : (p.payload.window 0 p.len.toNat).length < 256 := by
    rw [length]
    exact p.len.toNat_lt
  -- whatever packet begins with what was read is this one
  have only : ∀ (r : Rpc) rest, p.begun ++ b :: rest = r.packet →
      p.type = kTypeRpc ∧ p.payload.window 0 p.len.toNat = r.payload ∧
        b = checksum p.begun := by
    intro r rest same
    rw [read] at same ⊢
    obtain ⟨types, payloads, tails⟩ := frame_inj short r.payload_short same
    rw [types, payloads]
    exact ⟨rfl, rfl, (List.cons.inj tails).1⟩
  simp only [feed, stage, inStep.sum]
  by_cases ok : b = (byteSum p.begun &&& 0xFF).toUInt8
  · simp only [ok, not_true_eq_false, if_false]
    rw [← ok]
    by_cases type : p.type = kTypeRpc
    · simp only [type, ne_eq, not_true_eq_false, if_false]
      by_cases malformed : p.len < 2 ∨ p.len - 2 ≠ p.payloadAt 1
      · simp only [malformed, if_true]
        exact .restarted .malformed (by decide) fun r rest same =>
          payload_malformed room malformed r (only r rest same).2.1
      · simp only [malformed, if_false]
        obtain ⟨r, payload, content⟩ := payload_wellFormed room malformed
        have begins := inStep_restart p .none b
        refine .accepted r ?_ content.symm ⟨begins.sum, begins.header, nofun, by simp [restart]⟩
          rfl rfl
        rw [Rpc.packet, packet, ← payload, ← type, ← read, checksum, ← ok]
    · simp only [type, ne_eq, not_false_eq_true, if_true]
      exact .restarted .none (by decide) fun r rest same => type (only r rest same).1
  · simp only [ok, not_false_eq_true, if_true]
    exact .restarted .badChecksum (by decide) fun r rest same => ok (only r rest same).2.2

theorem feed_fed (inStep : p.InStep) (inside : p.stage ≠ .header) : Fed p b (p.feed b) := by
  cases stage : p.stage with
  | header => exact absurd stage inside
  | version => exact fed_version inStep stage
  | type => exact fed_type inStep stage
  | length => exact fed_length inStep stage
  | payload => exact fed_payload inStep stage
  | checksum => exact fed_checksum inStep stage

/-! ## Soundness -/

/-- What is being read stays the end of what was fed. -/
theorem feed_begun (inStep : p.InStep) (b : UInt8) :
    (p.feed b).1.InStep ∧ (p.feed b).1.begun <:+ p.begun ++ [b] := by
  by_cases stage : p.stage = .header
  · obtain ⟨q, fed, after, begun, _⟩ := feed_header (b := b) inStep stage
    have read : p.begun = kHeader.take p.headerIdx.toNat := by rw [Parser.begun, stage]
    rw [fed, read, begun]
    exact ⟨after, Needle.take_advance_suffix kHeader _ b⟩
  · have fed := feed_fed (b := b) inStep stage
    revert fed
    generalize p.feed b = outcome
    intro fed
    cases fed with
    | extended after begun _ => exact ⟨after, begun ▸ List.suffix_rfl⟩
    | restarted result _ _ => exact ⟨inStep_restart p result b, restart_suffix p result b⟩
    | accepted _ _ _ after _ begun => exact ⟨after, begun ▸ restart_suffix p .none b⟩

theorem run_begun (inStep : p.InStep) (bytes : List UInt8) :
    (p.run bytes).InStep ∧ (p.run bytes).begun <:+ p.begun ++ bytes := by
  induction bytes generalizing p with
  | nil => exact ⟨inStep, by rw [List.append_nil]; exact List.suffix_rfl⟩
  | cons b bytes ih =>
      obtain ⟨after, begun⟩ := feed_begun inStep b
      obtain ⟨last, suffix⟩ := ih after
      refine ⟨last, suffix.trans ?_⟩
      obtain ⟨before, split⟩ := begun
      refine ⟨before, ?_⟩
      rw [← List.append_assoc, split, List.append_assoc, List.singleton_append]

/-- `Rpc` is returned on the last byte of a packet and with its content. -/
theorem feed_rpc (inStep : p.InStep) (rpc : (p.feed b).2 = .rpc) :
    ∃ r : Rpc, r.packet = p.begun ++ [b] ∧
      ((p.feed b).1.command, (p.feed b).1.dataBytes) = r.content := by
  by_cases stage : p.stage = .header
  · obtain ⟨q, fed, _⟩ := feed_header (b := b) inStep stage
    rw [fed] at rpc
    cases rpc
  · have fed := feed_fed (b := b) inStep stage
    revert fed rpc
    generalize p.feed b = outcome
    intro rpc fed
    cases fed with
    | extended _ _ _ => cases rpc
    | restarted _ silent _ => exact absurd rpc silent
    | accepted r complete content _ _ _ => exact ⟨r, complete.symm, content⟩

/-! ## The way back to the header -/

/-- Past the header a packet has begun, and it is not whole. -/
theorem begun_length (inStep : p.InStep) (inside : p.stage ≠ .header) :
    kHeader.length ≤ p.begun.length ∧ p.begun.length < kMaxPacket := by
  have room := inStep.room
  have payload := inStep.payload
  unfold begun
  cases stage : p.stage with
  | header => exact absurd stage inside
  | version => exact ⟨Nat.le_refl _, by simp [kHeader, kMaxPacket, kMaxPayload]⟩
  | type => exact ⟨by simp, by simp [kHeader, kMaxPacket, kMaxPayload]⟩
  | length => exact ⟨by simp, by simp [kHeader, kMaxPacket, kMaxPayload]⟩
  | payload =>
      have below : p.got.toNat < p.len.toNat := payload stage
      have fits := room (.inl stage)
      have length : (p.payload.window 0 p.got.toNat).length = p.got.toNat - 0 :=
        p.payload.window_length 0 (by omega)
      simp only [List.length_append, length, kHeader, List.length_cons, List.length_nil, kMaxPacket]
      omega
  | checksum =>
      have fits := room (.inr stage)
      have length := p.payload.window_length 0 fits
      simp only [List.length_append, length, kHeader, List.length_cons, List.length_nil, kMaxPacket]
      omega

theorem header_within (more : List UInt8) (inStep : p.InStep) (inside : p.stage ≠ .header)
    (long : kMaxPacket ≤ p.begun.length + more.length) :
    ∃ k, p.begun.length + k ≤ kMaxPacket ∧ (p.run (more.take k)).stage = .header := by
  have short := (begun_length inStep inside).2
  induction more generalizing p with
  | nil =>
      rw [List.length_nil] at long
      omega
  | cons b more ih =>
      have fed := feed_fed (b := b) inStep inside
      have one : ∀ q result, p.feed b = (q, result) → q.stage = .header →
          ∃ k, p.begun.length + k ≤ kMaxPacket ∧
            (p.run ((b :: more).take k)).stage = .header := by
        intro q result eq header
        refine ⟨1, short, ?_⟩
        simp only [List.take_succ_cons, List.take_zero, run, List.foldl_cons, List.foldl_nil, eq,
          header]
      generalize eq : p.feed b = outcome at fed
      cases fed with
      | @extended q after begun further =>
          have grown : q.begun.length = p.begun.length + 1 := by
            rw [begun, List.length_append]
            rfl
          rw [List.length_cons] at long
          obtain ⟨k, bound, header⟩ := ih after further (by omega) (begun_length after further).2
          refine ⟨k + 1, by omega, ?_⟩
          rw [List.take_succ_cons, run, List.foldl_cons, eq]
          exact header
      | restarted result _ _ => exact one _ _ eq rfl
      | accepted _ _ _ _ header _ => exact one _ _ eq header

end Parser

end FryFirmware.Improv
