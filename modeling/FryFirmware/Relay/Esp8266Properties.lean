import FryFirmware.Relay.Esp8266
import FryFirmware.Relay.Socks5Properties
import Mathlib.Tactic.Common

/-!
# Segmentation and the single-client relay

What a client may expect is a function of its bytes alone, however they arrive. The
relay meets it as long as no read runs past the end of the greeting or of an accepted
request, and every write takes all its bytes.
-/

set_option autoImplicit false

namespace FryFirmware.Relay.Esp8266

variable (connects : Target → Bool)

/-! ## What the bytes call for -/

structure Answer where
  replies : Bytes := []
  target : Option Target := none
  /-- What goes upstream, once the target is connected. -/
  payload : Option Bytes := none

/-- The answer to the bytes behind the greeting. -/
def answerRequest (stream : Bytes) : Answer :=
  match parseConnectRequest stream {} 0 with
  | (.needMoreData, _, _) => {}
  | (.ok, request, consumed) =>
      { replies := connectReply (connects (targetOf request))
        target := some (targetOf request)
        payload := if connects (targetOf request) then some (stream.drop consumed) else none }
  | _ => { replies := connectReply false }

/-- The answer to the bytes of a client; a greeting has at most 16. -/
def answer (stream : Bytes) : Answer :=
  match parseGreeting (stream.take kGreetingBufMax) {} 0 with
  | (.needMoreData, _, _) => {}
  | (.ok, _, consumed) =>
      let request := answerRequest connects (stream.drop consumed)
      { request with replies := methodReply ++ request.replies }
  | _ => { replies := noMethodReply }

/-- How far the answer to a longer stream may differ: it may add a reply and a target,
and once there is a payload it only adds to that. -/
structure Answer.Extends (short long : Answer) (more : Bytes) : Prop where
  replies : short.replies <+: long.replies
  target : ∀ target, short.target = some target → long.target = some target
  payload : ∀ payload, short.payload = some payload → long = { short with payload := some (payload ++ more) }

theorem answerRequest_extends (stream more : Bytes) :
    (answerRequest connects stream).Extends (answerRequest connects (stream ++ more)) more := by
  obtain ⟨waits, -⟩ | ⟨request, rest, req, same, -, parsed⟩ | ⟨result, parsed, rejected, decided⟩ :=
    parseConnectRequest_cases stream {} 0
  · have short : answerRequest connects stream = {} := by rw [answerRequest, waits]
    rw [short]
    exact ⟨List.nil_prefix, nofun, nofun⟩
  · have longer := parseConnectRequest_append (by rw [parsed]; simp) more
    rw [parsed] at longer
    have length : request.length ≤ stream.length := by rw [same]; simp
    rw [answerRequest, answerRequest, parsed, longer]
    refine ⟨List.prefix_refl _, fun _ => id, fun payload taken => ?_⟩
    dsimp only at taken ⊢
    split at taken
    · rw [if_pos ‹_›, List.drop_append_of_le_length length, Option.some.inj taken]
    · cases taken
  · have longer := parseConnectRequest_append (by rw [parsed]; exact decided) more
    have short : answerRequest connects stream = answerRequest connects (stream ++ more) := by
      rw [answerRequest, answerRequest, longer, parsed]
      cases result <;> first | rfl | exact absurd rfl rejected
    rw [← short]
    refine ⟨List.prefix_refl _, fun _ => id, fun payload taken => ?_⟩
    rw [answerRequest, parsed] at taken
    cases result <;> first | cases taken | exact absurd rfl rejected

structure Greeted (greeting : Bytes) : Prop where
  fits : greeting.length ≤ kGreetingBufMax
  isGreeting : IsGreeting greeting

variable {connects}

/-- Behind an accepted greeting the answer is that to the request. -/
theorem answer_greeted {greeting : Bytes} (greeted : Greeted greeting) (rest : Bytes) :
    answer connects (greeting ++ rest) =
      { answerRequest connects rest with replies := methodReply ++ (answerRequest connects rest).replies } := by
  obtain ⟨info, parsed⟩ := greeted.isGreeting.parsed {} 0
  have longer := parseGreeting_append (by rw [parsed]; simp)
    (rest.take (kGreetingBufMax - greeting.length))
  rw [parsed] at longer
  have window : (greeting ++ rest).take kGreetingBufMax =
      greeting ++ rest.take (kGreetingBufMax - greeting.length) := by
    rw [List.take_append, List.take_of_length_le greeted.fits]
  rw [answer, window, longer]
  dsimp only
  rw [List.drop_left]

theorem answer_rejected {stream : Bytes} {result : Socks5Result × Socks5Greeting × Nat}
    (parsed : parseGreeting (stream.take kGreetingBufMax) {} 0 = result)
    (rejected : result.1 ≠ .ok) (decided : result.1 ≠ .needMoreData) :
    answer connects stream = { replies := noMethodReply } := by
  obtain ⟨code, info, used⟩ := result
  rw [answer, parsed]
  cases code <;> first | rfl | exact absurd rfl rejected | exact absurd rfl decided

/-- The three ways the first bytes are answered. -/
theorem answer_cases (connects : Target → Bool) (stream : Bytes) :
    answer connects stream = {} ∨ (∃ greeting rest, Greeted greeting ∧ stream = greeting ++ rest) ∨
      ((parseGreeting (stream.take kGreetingBufMax) {} 0).1 ≠ .ok ∧
        (parseGreeting (stream.take kGreetingBufMax) {} 0).1 ≠ .needMoreData) := by
  obtain ⟨waits, -⟩ | ⟨greeting, rest, info, same, isGreeting, parsed⟩ | ⟨result, info, used, parsed, rejected, decided⟩ :=
    parseGreeting_cases (stream.take kGreetingBufMax) {} 0
  · exact Or.inl (by rw [answer, waits])
  · have fits : greeting.length ≤ kGreetingBufMax := by
      have size := congrArg List.length same
      simp only [List.length_take, List.length_append] at size
      omega
    refine Or.inr (Or.inl ⟨greeting, rest ++ stream.drop kGreetingBufMax, ⟨fits, isGreeting⟩, ?_⟩)
    rw [← List.append_assoc, ← same, List.take_append_drop]
  · exact Or.inr (Or.inr (by rw [parsed]; exact ⟨rejected, decided⟩))

theorem answer_extends (stream more : Bytes) :
    (answer connects stream).Extends (answer connects (stream ++ more)) more := by
  obtain waits | ⟨greeting, rest, greeted, rfl⟩ | ⟨rejected, decided⟩ := answer_cases connects stream
  · rw [waits]
    exact ⟨List.nil_prefix, nofun, nofun⟩
  · obtain ⟨replies, target, payload⟩ := answerRequest_extends connects rest more
    rw [List.append_assoc, answer_greeted greeted, answer_greeted greeted]
    refine ⟨(List.prefix_append_right_inj _).mpr replies, target, fun found taken => ?_⟩
    rw [payload found taken]
  · have longer := parseGreeting_append decided (more.take (kGreetingBufMax - stream.length))
    rw [← List.take_append] at longer
    rw [answer_rejected rfl rejected decided, answer_rejected longer rejected decided]
    exact ⟨List.prefix_refl _, nofun, nofun⟩

/-- What goes upstream is the client's stream without its greeting and its request. -/
theorem answer_strips {stream payload : Bytes} (taken : (answer connects stream).payload = some payload) :
    StripsHandshake stream payload := by
  obtain waits | ⟨greeting, rest, greeted, rfl⟩ | ⟨rejected, decided⟩ := answer_cases connects stream
  · rw [waits] at taken
    cases taken
  · rw [answer_greeted greeted] at taken
    obtain ⟨waits, -⟩ | ⟨request, tail, req, rfl, isRequest, parsed⟩ | ⟨result, parsed, rejected, decided⟩ :=
      parseConnectRequest_cases rest {} 0
    · rw [answerRequest, waits] at taken
      cases taken
    · rw [answerRequest, parsed] at taken
      dsimp only at taken
      split at taken
      · rw [List.drop_left] at taken
        obtain rfl := Option.some.inj taken
        exact ⟨greeting, request, greeted.isGreeting, isRequest, (List.append_assoc ..).symm⟩
      · cases taken
    · rw [answerRequest, parsed] at taken
      cases result <;> first | cases taken | exact absurd rfl rejected
  · rw [answer_rejected rfl rejected decided] at taken
    cases taken

/-! ## The law of a step -/

/-- No read runs past the end of an accepted greeting, or of a request whose target is
connected, and every write takes all its bytes. -/
def clean (connects : Target → Bool) (relay : VpnSocks5) (input : Tick) : Bool :=
  match relay.state with
  | .listening => true
  | .greeting =>
      let buf := (fill relay kGreetingBufMax input).buf
      !input.clientConnected ||
        match parseGreeting buf {} 0 with
        | (.needMoreData, _, _) => true
        | (.ok, _, consumed) => consumed = buf.length && methodReply.length ≤ input.clientAccepts
        | _ => noMethodReply.length ≤ input.clientAccepts
  | .awaitingConnect =>
      let buf := (fill relay kConnectBufMax input).buf
      !input.clientConnected ||
        match parseConnectRequest buf {} 0 with
        | (.needMoreData, _, _) => true
        | (.ok, request, consumed) =>
            (!connects (targetOf request) || consumed = buf.length) &&
              (connectReply (connects (targetOf request))).length ≤ input.clientAccepts
        | _ => (connectReply false).length ≤ input.clientAccepts
  | .relaying =>
      (clientChunk relay kCopyBufSize input).length ≤ input.upstreamAccepts &&
        (upstreamChunk relay kCopyBufSize input).length ≤ input.clientAccepts

/-- Which bytes of the client are still in the buffer. -/
inductive Stage (connects : Target → Bool) (relay : VpnSocks5) : Prop where
  | listening (state : relay.state = .listening)
  | greeting (state : relay.state = .greeting) (buf : relay.clientRead = relay.buf)
      (short : relay.buf.length < kGreetingBufMax)
      (waits : (parseGreeting relay.buf {} 0).1 = .needMoreData) (quiet : relay.upstreamRead = [])
  | awaitingConnect (greeting : Bytes) (state : relay.state = .awaitingConnect) (greeted : Greeted greeting)
      (buf : relay.clientRead = greeting ++ relay.buf)
      (waits : (parseConnectRequest relay.buf {} 0).1 = .needMoreData) (quiet : relay.upstreamRead = [])
  | relaying (state : relay.state = .relaying)
      (connected : (answer connects relay.clientRead).payload ≠ none)

/-- Both sides have accepted what the bytes of the client call for. -/
structure Answered (connects : Target → Bool) (relay : VpnSocks5) : Prop where
  toClient : relay.toClient = (answer connects relay.clientRead).replies ++ relay.upstreamRead
  target : relay.target = (answer connects relay.clientRead).target
  toUpstream : relay.toUpstream = (answer connects relay.clientRead).payload.getD []

/-- The relay has answered the bytes it read as it should, and dropped none of them. -/
structure Faithful (connects : Target → Bool) (relay : VpnSocks5) : Prop where
  answered : Answered connects relay
  stage : Stage connects relay

/-- Closing keeps what has been exchanged. -/
theorem faithful_reset {relay : VpnSocks5} (answered : Answered connects relay) :
    Faithful connects (resetToListening relay) :=
  ⟨⟨answered.toClient, answered.target, answered.toUpstream⟩, .listening rfl⟩

theorem fill_facts (relay : VpnSocks5) (limit : Nat) (input : Tick) :
    ∃ chunk, chunk.length ≤ limit - relay.buf.length ∧ (fill relay limit input).buf = relay.buf ++ chunk ∧
      (fill relay limit input).clientRead = relay.clientRead ++ chunk ∧
      (fill relay limit input).toClient = relay.toClient ∧
      (fill relay limit input).upstreamRead = relay.upstreamRead ∧
      (fill relay limit input).target = relay.target ∧
      (fill relay limit input).toUpstream = relay.toUpstream ∧
      (fill relay limit input).state = relay.state := by
  unfold fill
  split
  · refine ⟨clientChunk relay (limit - relay.buf.length) input, ?_, rfl, rfl, rfl, rfl, rfl, rfl, rfl⟩
    unfold clientChunk
    rw [List.length_take]
    omega
  · exact ⟨[], Nat.zero_le _, (List.append_nil _).symm, (List.append_nil _).symm, rfl, rfl, rfl, rfl, rfl⟩

theorem answer_waits {stream : Bytes} (short : stream.length ≤ kGreetingBufMax)
    (waits : (parseGreeting stream {} 0).1 = .needMoreData) : answer connects stream = {} := by
  obtain ⟨parsed, -⟩ | ⟨_, _, _, _, _, parsed⟩ | ⟨_, _, _, parsed, _, decided⟩ := parseGreeting_cases stream {} 0
  · rw [answer, List.take_of_length_le short, parsed]
  · rw [parsed] at waits
    cases waits
  · rw [parsed] at waits
    exact absurd waits decided

theorem answerRequest_waits {stream : Bytes} (waits : (parseConnectRequest stream {} 0).1 = .needMoreData) :
    answerRequest connects stream = {} := by
  obtain ⟨parsed, -⟩ | ⟨_, _, _, _, _, parsed⟩ | ⟨_, parsed, _, decided⟩ := parseConnectRequest_cases stream {} 0
  · rw [answerRequest, parsed]
  · rw [parsed] at waits
    cases waits
  · rw [parsed] at waits
    exact absurd waits decided

theorem greet_faithful {relay : VpnSocks5} {input : Tick} (state : relay.state = .greeting)
    (faithful : Faithful connects relay) (clear : clean connects relay input = true) :
    Faithful connects (greet relay input) := by
  obtain ⟨answered, stage⟩ := faithful
  cases stage with
  | listening other => cases state.symm.trans other
  | awaitingConnect _ other => cases state.symm.trans other
  | relaying other => cases state.symm.trans other
  | greeting _ buf short waits quiet =>
      unfold greet
      cases connected : input.clientConnected with
      | false => exact faithful_reset answered
      | true =>
          obtain ⟨oldClient, oldTarget, oldUpstream⟩ := answered
          rw [buf, answer_waits (Nat.le_of_lt short) waits] at oldClient oldTarget oldUpstream
          simp only [clean, state, connected, Bool.not_true, Bool.false_or] at clear
          obtain ⟨chunk, size, newBuf, newRead, toClient, upstreamRead, target, toUpstream, newState⟩ :=
            fill_facts relay kGreetingBufMax input
          simp only [Bool.not_true, Bool.false_eq_true, if_false]
          generalize fill relay kGreetingBufMax input = filled at *
          have read : filled.clientRead = filled.buf := by rw [newRead, buf, newBuf]
          have length : filled.buf.length ≤ kGreetingBufMax := by
            rw [newBuf, List.length_append]
            omega
          rw [oldClient, quiet] at toClient
          rw [quiet] at upstreamRead
          rw [oldTarget] at target
          rw [oldUpstream] at toUpstream
          obtain ⟨parsed, -⟩ | ⟨greeting, rest, info, same, isGreeting, parsed⟩ | ⟨result, info, used, parsed, rejected, decided⟩ :=
            parseGreeting_cases filled.buf {} 0
          · have more : (parseGreeting filled.buf {} 0).1 = .needMoreData := by rw [parsed]
            have nothing : answer connects filled.clientRead = {} := read ▸ answer_waits length more
            have now : Answered connects filled :=
              ⟨by rw [toClient, nothing, upstreamRead], by rw [target, nothing], by rw [toUpstream, nothing]⟩
            rw [parsed]
            dsimp only
            split
            · exact faithful_reset now
            · exact ⟨now, .greeting (newState.trans state) read (by omega) more upstreamRead⟩
          · rw [parsed] at clear ⊢
            simp only [Bool.and_eq_true, decide_eq_true_eq] at clear
            obtain ⟨consumed, accepts⟩ := clear
            obtain rfl : rest = [] := by
              rw [same, List.length_append] at consumed
              exact List.eq_nil_of_length_eq_zero (by omega)
            rw [List.append_nil] at same
            have greeted : Greeted greeting := ⟨same ▸ length, isGreeting⟩
            have greetedAnswer : answer connects filled.clientRead = { replies := methodReply } := by
              have behind : answer connects (greeting ++ []) = _ := answer_greeted greeted []
              rw [List.append_nil, answerRequest_waits rfl] at behind
              rw [read, same, behind]
              rfl
            refine ⟨⟨?_, ?_, ?_⟩, .awaitingConnect greeting rfl greeted ?_ rfl upstreamRead⟩
            · show filled.toClient ++ methodReply.take input.clientAccepts =
                (answer connects filled.clientRead).replies ++ filled.upstreamRead
              rw [List.take_of_length_le accepts, toClient, greetedAnswer, upstreamRead]
              rfl
            · show filled.target = (answer connects filled.clientRead).target
              rw [target, greetedAnswer]
            · show filled.toUpstream = (answer connects filled.clientRead).payload.getD []
              rw [toUpstream, greetedAnswer]
            · show filled.clientRead = greeting ++ []
              rw [read, same, List.append_nil]
          · have rejectedAnswer : answer connects filled.clientRead = { replies := noMethodReply } := by
              have window : parseGreeting (filled.buf.take kGreetingBufMax) {} 0 = (result, info, used) := by
                rw [List.take_of_length_le length, parsed]
              rw [read]
              exact answer_rejected window rejected decided
            rw [parsed] at clear ⊢
            have accepts : noMethodReply.length ≤ input.clientAccepts := by
              cases result <;>
                first | exact of_decide_eq_true clear | exact absurd rfl rejected | exact absurd rfl decided
            have closed : Faithful connects (resetToListening (writeClient filled noMethodReply input)) := by
              refine faithful_reset ⟨?_, ?_, ?_⟩
              · show filled.toClient ++ noMethodReply.take input.clientAccepts =
                  (answer connects filled.clientRead).replies ++ filled.upstreamRead
                rw [List.take_of_length_le accepts, toClient, rejectedAnswer, upstreamRead]
                rfl
              · show filled.target = (answer connects filled.clientRead).target
                rw [target, rejectedAnswer]
              · show filled.toUpstream = (answer connects filled.clientRead).payload.getD []
                rw [toUpstream, rejectedAnswer]
            cases result <;> first | exact closed | exact absurd rfl rejected | exact absurd rfl decided

theorem awaitConnect_faithful {relay : VpnSocks5} {input : Tick} (state : relay.state = .awaitingConnect)
    (faithful : Faithful connects relay) (clear : clean connects relay input = true) :
    Faithful connects (awaitConnect connects relay input) := by
  obtain ⟨answered, stage⟩ := faithful
  cases stage with
  | listening other => cases state.symm.trans other
  | greeting other => cases state.symm.trans other
  | relaying other => cases state.symm.trans other
  | awaitingConnect greeting _ greeted buf waits quiet =>
      unfold awaitConnect
      cases connected : input.clientConnected with
      | false => exact faithful_reset answered
      | true =>
          obtain ⟨oldClient, oldTarget, oldUpstream⟩ := answered
          rw [buf, answer_greeted greeted, answerRequest_waits waits] at oldClient oldTarget oldUpstream
          simp only [clean, state, connected, Bool.not_true, Bool.false_or] at clear
          obtain ⟨chunk, size, newBuf, newRead, toClient, upstreamRead, target, toUpstream, newState⟩ :=
            fill_facts relay kConnectBufMax input
          simp only [Bool.not_true, Bool.false_eq_true, if_false]
          generalize fill relay kConnectBufMax input = filled at *
          have read : filled.clientRead = greeting ++ filled.buf := by
            rw [newRead, buf, newBuf, List.append_assoc]
          have current : answer connects (greeting ++ filled.buf) = _ := answer_greeted greeted filled.buf
          rw [← read] at current
          rw [oldClient, quiet] at toClient
          rw [quiet] at upstreamRead
          rw [oldTarget] at target
          rw [oldUpstream] at toUpstream
          obtain ⟨parsed, -⟩ | ⟨request, rest, req, same, isRequest, parsed⟩ | ⟨result, parsed, rejected, decided⟩ :=
            parseConnectRequest_cases filled.buf {} 0
          · have more : (parseConnectRequest filled.buf {} 0).1 = .needMoreData := by rw [parsed]
            rw [answerRequest_waits more] at current
            have now : Answered connects filled :=
              ⟨by rw [toClient, current, upstreamRead], by rw [target, current], by rw [toUpstream, current]⟩
            rw [parsed]
            dsimp only
            split
            · exact faithful_reset now
            · exact ⟨now, .awaitingConnect greeting (newState.trans state) greeted read more upstreamRead⟩
          · rw [parsed] at clear ⊢
            simp only [Bool.and_eq_true, Bool.or_eq_true, Bool.not_eq_true', decide_eq_true_eq] at clear
            obtain ⟨consumed, accepts⟩ := clear
            rw [answerRequest, parsed] at current
            have sent : filled.toClient ++ (connectReply (connects (targetOf req))).take input.clientAccepts =
                (answer connects filled.clientRead).replies ++ filled.upstreamRead := by
              rw [List.take_of_length_le accepts, toClient, current, upstreamRead]
              simp
            have aimed : some (targetOf req) = (answer connects filled.clientRead).target := by rw [current]
            dsimp only
            cases connected : connects (targetOf req) with
            | false =>
                rw [connected] at sent
                refine faithful_reset ⟨sent, aimed, ?_⟩
                show filled.toUpstream = (answer connects filled.clientRead).payload.getD []
                rw [toUpstream, current]
                simp [connected]
            | true =>
                rw [connected] at sent
                obtain rfl : rest = [] := by
                  have whole := consumed.resolve_left (by simp [connected])
                  rw [same, List.length_append] at whole
                  exact List.eq_nil_of_length_eq_zero (by omega)
                have payload : (answer connects filled.clientRead).payload = some [] := by
                  rw [current, same]
                  simp [connected]
                refine ⟨⟨sent, aimed, ?_⟩, .relaying rfl ?_⟩
                · show filled.toUpstream = (answer connects filled.clientRead).payload.getD []
                  rw [toUpstream, payload]
                  rfl
                · show (answer connects filled.clientRead).payload ≠ none
                  rw [payload]
                  exact Option.some_ne_none []
          · have refused : answerRequest connects filled.buf = { replies := connectReply false } := by
              rw [answerRequest, parsed]
              cases result <;> first | rfl | exact absurd rfl rejected | exact absurd rfl decided
            rw [refused] at current
            rw [parsed] at clear ⊢
            have accepts : (connectReply false).length ≤ input.clientAccepts := by
              cases result <;>
                first | exact of_decide_eq_true clear | exact absurd rfl rejected | exact absurd rfl decided
            have closed : Faithful connects (resetToListening (sendConnectReply filled false input)) := by
              refine faithful_reset ⟨?_, ?_, ?_⟩
              · show filled.toClient ++ (connectReply false).take input.clientAccepts =
                  (answer connects filled.clientRead).replies ++ filled.upstreamRead
                rw [List.take_of_length_le accepts, toClient, current, upstreamRead]
                simp
              · show filled.target = (answer connects filled.clientRead).target
                rw [target, current]
              · show filled.toUpstream = (answer connects filled.clientRead).payload.getD []
                rw [toUpstream, current]
            cases result <;> first | exact closed | exact absurd rfl rejected | exact absurd rfl decided

theorem pumpClient_answered {relay : VpnSocks5} {input : Tick} (answered : Answered connects relay)
    (connected : (answer connects relay.clientRead).payload ≠ none)
    (accepts : (clientChunk relay kCopyBufSize input).length ≤ input.upstreamAccepts) :
    Answered connects (pumpClient relay input) ∧
      (answer connects (pumpClient relay input).clientRead).payload ≠ none := by
  obtain ⟨payload, taken⟩ := Option.ne_none_iff_exists'.mp connected
  have longer := (answer_extends relay.clientRead (clientChunk relay kCopyBufSize input)).payload payload taken
  obtain ⟨toClient, target, toUpstream⟩ := answered
  refine ⟨⟨?_, ?_, ?_⟩, ?_⟩
  · show relay.toClient = (answer connects (relay.clientRead ++ _)).replies ++ relay.upstreamRead
    rw [longer, toClient]
  · show relay.target = (answer connects (relay.clientRead ++ _)).target
    rw [longer, target]
  · show relay.toUpstream ++ (clientChunk relay kCopyBufSize input).take input.upstreamAccepts =
      (answer connects (relay.clientRead ++ _)).payload.getD []
    rw [longer, List.take_of_length_le accepts, toUpstream, taken]
    rfl
  · show (answer connects (relay.clientRead ++ _)).payload ≠ none
    rw [longer]
    exact Option.some_ne_none _

theorem pumpUpstream_answered {relay : VpnSocks5} {input : Tick} (answered : Answered connects relay)
    (accepts : (upstreamChunk relay kCopyBufSize input).length ≤ input.clientAccepts) :
    Answered connects (pumpUpstream relay input) := by
  obtain ⟨toClient, target, toUpstream⟩ := answered
  refine ⟨?_, target, toUpstream⟩
  show relay.toClient ++ (upstreamChunk relay kCopyBufSize input).take input.clientAccepts =
    (answer connects relay.clientRead).replies ++ (relay.upstreamRead ++ _)
  rw [List.take_of_length_le accepts, toClient, List.append_assoc]

/-- The clock and what has not been read yet play no part. -/
theorem Faithful.unread {relay : VpnSocks5} (faithful : Faithful connects relay) (time : UInt32)
    (client upstream : Bytes) :
    Faithful connects
      { relay with lastActivityMs := time, clientIn := client, upstreamIn := upstream } := by
  obtain ⟨⟨toClient, target, toUpstream⟩, stage⟩ := faithful
  refine ⟨⟨toClient, target, toUpstream⟩, ?_⟩
  cases stage with
  | listening state => exact .listening state
  | greeting state buf short waits quiet => exact .greeting state buf short waits quiet
  | awaitingConnect greeting state greeted buf waits quiet =>
      exact .awaitingConnect greeting state greeted buf waits quiet
  | relaying state connected => exact .relaying state connected

theorem faithful_close {relay : VpnSocks5} (faithful : Faithful connects relay) (close : Prop)
    [Decidable close] : Faithful connects (if close then resetToListening relay else relay) := by
  split
  · exact faithful_reset faithful.answered
  · exact faithful

theorem pumpRelay_faithful {relay : VpnSocks5} {input : Tick} (state : relay.state = .relaying)
    (faithful : Faithful connects relay) (clear : clean connects relay input = true) :
    Faithful connects (pumpRelay relay input) := by
  obtain ⟨answered, stage⟩ := faithful
  cases stage with
  | listening other => cases state.symm.trans other
  | greeting other => cases state.symm.trans other
  | awaitingConnect _ other => cases state.symm.trans other
  | relaying _ connected =>
      simp only [clean, state, Bool.and_eq_true, decide_eq_true_eq] at clear
      obtain ⟨first, stillConnected⟩ := pumpClient_answered answered connected clear.1
      have second : Answered connects (pumpUpstream (pumpClient relay input) input) :=
        pumpUpstream_answered first clear.2
      have read : (pumpUpstream (pumpClient relay input) input).clientRead =
          (pumpClient relay input).clientRead := rfl
      have still : (pumpUpstream (pumpClient relay input) input).state = relay.state := by
        simp only [pumpUpstream, pumpClient, writeClient, readUpstream, writeUpstream, readClient]
      rw [← read] at stillConnected
      have pumped : Faithful connects (pumpUpstream (pumpClient relay input) input) :=
        ⟨second, .relaying (still.trans state) stillConnected⟩
      unfold pumpRelay
      dsimp only
      generalize pumpUpstream (pumpClient relay input) input = after at pumped ⊢
      refine faithful_close ?_ _
      split
      · exact pumped.unread input.now _ _
      · exact pumped

theorem listen_faithful {relay : VpnSocks5} (faithful : Faithful connects relay) (input : Tick) :
    Faithful connects (listen relay input) := by
  unfold listen
  split
  · exact ⟨⟨rfl, rfl, rfl⟩, .greeting rfl rfl (Nat.succ_pos 15) rfl rfl⟩
  · exact faithful

/-- A clean call keeps the relay faithful. -/
theorem tick_faithful {relay : VpnSocks5} {input : Tick} (faithful : Faithful connects relay)
    (clear : clean connects (arrive relay input) input = true) : Faithful connects (tick connects relay input) := by
  have arrived : Faithful connects (arrive relay input) := faithful.unread relay.lastActivityMs _ _
  unfold tick
  split
  · exact faithful
  · dsimp only
    split
    · exact listen_faithful arrived input
    · exact greet_faithful ‹_› arrived clear
    · exact awaitConnect_faithful ‹_› arrived clear
    · exact pumpRelay_faithful ‹_› arrived clear

/-! ## Runs -/

/-- Every call is clean in the state it is made in. -/
def AllClean (connects : Target → Bool) : VpnSocks5 → List Tick → Prop
  | _, [] => True
  | relay, input :: inputs =>
      clean connects (arrive relay input) input = true ∧ AllClean connects (tick connects relay input) inputs

instance allCleanDecidable (connects : Target → Bool) :
    (relay : VpnSocks5) → (inputs : List Tick) → Decidable (AllClean connects relay inputs)
  | _, [] => isTrue trivial
  | relay, input :: inputs =>
      have := allCleanDecidable connects (tick connects relay input) inputs
      inferInstanceAs (Decidable (_ ∧ _))

theorem run_faithful {relay : VpnSocks5} (faithful : Faithful connects relay) {inputs : List Tick}
    (clean : AllClean connects relay inputs) : Faithful connects (inputs.foldl (tick connects) relay) := by
  induction inputs generalizing relay with
  | nil => exact faithful
  | cons input inputs ih => exact ih (tick_faithful faithful clean.1) clean.2

theorem faithful_init : Faithful connects (init {}) := ⟨⟨rfl, rfl, rfl⟩, .listening rfl⟩

/-- However the bytes of a client are split, the relay answers them alike: replies,
target and payload are those of the bytes it has read, the payload is exactly what
follows greeting and request, and a run that has read more has only added to them. -/
theorem segmentation_faithful (connects : Target → Bool) {inputs : List Tick}
    (clean : AllClean connects (init {}) inputs) :
    Answered connects (run connects inputs) ∧
      (∀ payload, (answer connects (run connects inputs).clientRead).payload = some payload →
        StripsHandshake (run connects inputs).clientRead payload) ∧
      ∀ others more, AllClean connects (init {}) others →
        (run connects others).clientRead = (run connects inputs).clientRead ++ more →
          (answer connects (run connects inputs).clientRead).Extends
            (answer connects (run connects others).clientRead) more ∧
          Answered connects (run connects others) := by
  refine ⟨(run_faithful faithful_init clean).answered, fun payload taken => answer_strips taken, ?_⟩
  intro others more othersClean longer
  refine ⟨?_, (run_faithful faithful_init othersClean).answered⟩
  rw [longer]
  exact answer_extends _ more

/-- A client that waits for each reply, its request in two pieces. -/
def patientClient : List Tick :=
  [{ hasClient := true }, { fromClient := [5, 1, 0] }, { fromClient := [5, 1, 0, 1, 10, 0, 0] },
    { fromClient := [1, 0, 80] }, { fromClient := [104, 105], fromUpstream := [111, 107] }]

theorem segmentation_faithful_patient :
    Answered (fun _ => true) (run (fun _ => true) patientClient) ∧
      (run (fun _ => true) patientClient).toUpstream = [104, 105] :=
  ⟨(segmentation_faithful (fun _ => true) (by decide +kernel)).1, by decide +kernel⟩

/-- The same bytes in one segment: the request and the payload behind the greeting are
dropped, and the relay waits for a request that never comes. -/
def hastyClient : List Tick :=
  [{ hasClient := true }, { fromClient := [5, 1, 0, 5, 1, 0, 1, 10, 0, 0, 1, 0, 80, 104, 105] }, {}]

theorem hasty_client_not_answered :
    (run (fun _ => true) hastyClient).clientRead = (run (fun _ => true) patientClient).clientRead ∧
      (run (fun _ => true) hastyClient).target = none ∧
      (run (fun _ => true) patientClient).target = some ([49, 48, 46, 48, 46, 48, 46, 49], 80) ∧
      ¬ Answered (fun _ => true) (run (fun _ => true) hastyClient) := by
  refine ⟨by decide +kernel, by decide +kernel, by decide +kernel, fun answered => ?_⟩
  exact absurd answered.target (by decide +kernel)

end FryFirmware.Relay.Esp8266
