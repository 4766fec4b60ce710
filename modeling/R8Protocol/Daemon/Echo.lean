import R8Protocol.Wire.Builders

/-! The UDP echo responder and the client that pings it. -/
namespace R8.Daemon

open FixedWidth Wire

/-- What the responder does with one datagram. -/
inductive Answer
  | echo (reply : List Byte)
  | sink (length : ℕ)
  | dropBudget
  | dropDestination
  | dropCtl
  | dropNextHeader
  | dropped (error : WireError)
  deriving DecidableEq, Repr

/-- The locator served, and the budget checked when the program starts. -/
structure Responder where
  me : Loc
  budget : ℕ
  bounded : HEADER_LEN ≤ budget ∧ budget ≤ SERIALIZED_R8_MAX

namespace Responder

def echoReply (r : Responder) (header : Header) (body : List Byte) : Answer :=
  match buildCtlWithBudget (Header.new NH_CTL r.me header.src) CTL_ECHO_REPLY 0 body r.budget with
  | .ok packet => .echo packet
  | .error error => .dropped error

/-- A datagram longer than the buffer arrives cut to one byte over the budget. -/
def respond (r : Responder) (datagram : List Byte) : Answer :=
  let buffer := datagram.take (r.budget + 1)
  if r.budget < buffer.length then .dropBudget
  else
    match Header.unpackWithBudget buffer r.budget with
    | .error error => .dropped error
    | .ok (header, payload) =>
      if header.dst ≠ r.me then .dropDestination
      else if header.nextHeader = NH_CTL then
        match parseCtl header payload with
        | .ok (typ, code, body) =>
          if typ = CTL_ECHO_REQUEST ∧ code = 0 then r.echoReply header body else .dropCtl
        | .error error => .dropped error
      else if header.nextHeader = NH_DGRAM then
        match parseDgram header payload with
        | .ok (_, _, data) => .sink data.length
        | .error error => .dropped error
      else .dropNextHeader

end Responder

/-- One run of the client: `count` requests to `target`, told apart by their sequence number. -/
structure Ping where
  me : Loc
  target : Loc
  budget : ℕ
  ident : U16
  count : U16
  bounded : HEADER_LEN ≤ budget ∧ budget ≤ SERIALIZED_R8_MAX
  positive : count ≠ 0

/-- A datagram received, and whether it came from the peer's endpoint. -/
structure Reception where
  datagram : List Byte
  fromPeer : Bool

/-- What a call of `send_to` comes to; the error code EMSGSIZE is told apart from the others. -/
inductive SendResult
  | sent (count : ℕ)
  | tooLong
  | failed
  deriving DecidableEq, Repr

/-- What one turn of the waiting loop comes to. A deadline that has just run out leaves a timeout of
zero, which the socket refuses. -/
inductive Turn
  | received (x : Reception)
  | timedOut
  | timeoutRefused
  | failed

/-- What the socket does for one request. After the last turn the deadline is over. -/
structure Link where
  send : SendResult
  turns : List Turn

inductive PingError
  | budget | bindingBudget | shortCount | send | readTimeout | receive
  deriving DecidableEq, Repr

/-- The counters of the loop, which wrap around in a release build. -/
structure Tally where
  received : U32
  invalid : U32
  deriving DecidableEq, Repr

structure PingSummary where
  sent : U32
  received : U32
  invalid : U32
  deriving DecidableEq, Repr

def validateSendCount (sent expected : ℕ) : Except PingError Unit :=
  if sent = expected then .ok () else .error .shortCount

def sendPacketWith (packet : List Byte) : SendResult → Except PingError ℕ
  | .sent count => do
    validateSendCount count packet.length
    .ok count
  | .tooLong => .error .bindingBudget
  | .failed => .error .send

namespace Ping

def body (p : Ping) (sequence : U16) : List Byte := u16Bytes p.ident ++ u16Bytes sequence

def request (p : Ping) (sequence : U16) : Except WireError (List Byte) :=
  buildCtlWithBudget (Header.new NH_CTL p.me p.target) CTL_ECHO_REQUEST 0 (p.body sequence) p.budget

/-- The reply that ends the wait for a sequence number. -/
def matched (p : Ping) (sequence : U16) (x : Reception) : Bool :=
  let buffer := x.datagram.take (p.budget + 1)
  if p.budget < buffer.length ∨ ¬ x.fromPeer then false
  else
    match Header.unpackWithBudget buffer p.budget with
    | .error _ => false
    | .ok (header, payload) =>
      match parseCtl header payload with
      | .ok (typ, code, reply) =>
        typ = CTL_ECHO_REPLY ∧ code = 0 ∧ header.nextHeader = NH_CTL ∧ header.src = p.target ∧
          header.dst = p.me ∧ reply = p.body sequence
      | .error _ => false

/-- The wait for one reply: what is invalid is counted, and whether the reply came. What is behind
the reply is left for the next request. -/
def await (p : Ping) (sequence : U16) (invalid : U32) : List Turn → Except PingError (U32 × Bool)
  | [] | .timedOut :: _ => .ok (invalid, false)
  | .timeoutRefused :: _ => .error .readTimeout
  | .failed :: _ => .error .receive
  | .received x :: rest =>
    if p.matched sequence x then .ok (invalid, true) else p.await sequence (invalid + 1) rest

def exchange (p : Ping) (sequence : U16) (packet : List Byte) (link : Link) (t : Tally) :
    Except PingError Tally := do
  let _ ← sendPacketWith packet link.send
  let (invalid, matched) ← p.await sequence t.invalid link.turns
  .ok ⟨if matched then t.received + 1 else t.received, invalid⟩

/-- The sequence numbers from 1 up to the count. -/
def sequences (p : Ping) : List U16 := (List.range p.count.val).map fun i => Fin.ofNat _ (i + 1)

/-- The loop over these sequence numbers, with the packets that were handed to the socket. -/
def rounds (p : Ping) (io : U16 → Link) :
    List U16 → Tally → List (List Byte) × Except PingError Tally
  | [], t => ([], .ok t)
  | sequence :: rest, t =>
    match p.request sequence with
    | .error _ => ([], .error .budget)
    | .ok packet =>
      match p.exchange sequence packet (io sequence) t with
      | .error e => ([packet], .error e)
      | .ok t =>
        let (packets, result) := p.rounds io rest t
        (packet :: packets, result)

def run (p : Ping) (io : U16 → Link) : List (List Byte) × Except PingError PingSummary :=
  let (packets, result) := p.rounds io p.sequences ⟨0, 0⟩
  (packets, result.map fun t => ⟨Fin.ofNat _ p.count.val, t.received, t.invalid⟩)

/-- The exit status of a run that got to its end. -/
def succeeds (summary : PingSummary) : Bool :=
  summary.sent = summary.received ∧ summary.invalid = 0

/-- The turns begin with so many receptions that are not the reply. -/
def Strays (p : Ping) (sequence : U16) (n : ℕ) (turns rest : List Turn) : Prop :=
  ∃ xs : List Reception, xs.length = n ∧ turns = xs.map .received ++ rest ∧
    ∀ x ∈ xs, p.matched sequence x = false

/-- The request goes out whole, and its reply comes in behind so many strays. -/
def Answered (p : Ping) (sequence : U16) (n : ℕ) (link : Link) : Prop :=
  link.send = .sent 56 ∧ ∃ x rest, p.Strays sequence n link.turns (.received x :: rest) ∧
    p.matched sequence x = true

/-- A failure of the socket during one request. -/
inductive Breaks (p : Ping) (sequence : U16) (link : Link) : PingError → Prop
  | shortCount {count : ℕ} : link.send = .sent count → count ≠ 56 → Breaks p sequence link .shortCount
  | tooLong : link.send = .tooLong → Breaks p sequence link .bindingBudget
  | send : link.send = .failed → Breaks p sequence link .send
  | readTimeout {n : ℕ} {rest : List Turn} : link.send = .sent 56 →
    p.Strays sequence n link.turns (.timeoutRefused :: rest) → Breaks p sequence link .readTimeout
  | receive {n : ℕ} {rest : List Turn} : link.send = .sent 56 →
    p.Strays sequence n link.turns (.failed :: rest) → Breaks p sequence link .receive

/-- The packets of these sequence numbers, in order. -/
def Requests (p : Ping) : List U16 → List (List Byte) → Prop :=
  List.Forall₂ fun sequence packet => p.request sequence = .ok packet

end Ping

/-- A packet is an echo message of the given type between two locators. -/
structure Carries (budget : ℕ) (packet : List Byte) (typ : Byte) (src dst : Loc)
    (body : List Byte) : Prop where
  reads : ∃ header payload, Header.unpackWithBudget packet budget = .ok (header, payload) ∧
    header.nextHeader = NH_CTL ∧ header.src = src ∧ header.dst = dst ∧
    parseCtl header payload = .ok (typ, 0, body)

variable {r r' : Responder} {p : Ping} {datagram packet reply body body' : List Byte}
  {packets : List (List Byte)} {typ typ' : Byte}
  {src dst src' dst' : Loc} {budget budget' n : ℕ} {sequence : U16} {x : Reception}
  {turns rest : List Turn} {link : Link} {io : U16 → Link} {t t' : Tally} {e : PingError}

theorem Header.new_bare (src dst : Loc) : (Header.new NH_CTL src dst).Bare NH_CTL :=
  ⟨rfl, rfl, rfl, by simp [Header.new], rfl, rfl, rfl⟩

theorem validateCtl_echo (htyp : typ = CTL_ECHO_REQUEST ∨ typ = CTL_ECHO_REPLY) :
    validateCtl typ 0 body = .ok () ↔ 4 ≤ body.length := by
  rw [validateCtl, if_pos htyp, if_neg (not_not.mpr rfl), Outcome.ite_error_eq_ok, not_lt]
  exact and_iff_left rfl

/-- An echo packet is as long as its body and the two headers, and fits the budget it was read in. -/
theorem Carries.size (h : Carries budget packet typ src dst body) :
    packet.length = HEADER_LEN + (4 + body.length) ∧ Fits (4 + body.length) budget ∧
      validateCtl typ 0 body = .ok () := by
  obtain ⟨header, payload, hu, hnext, -, -, hparse⟩ := h.reads
  obtain ⟨x, hx, hframe, hshape, hfits, -⟩ := ctl_framed.build_of_unpack hu hnext
  obtain rfl := Except.ok.inj (hx.symm.trans hparse)
  obtain ⟨hdata, -, -⟩ := bytes_of_unpack hu
  refine ⟨?_, hfits, hshape⟩
  rw [hdata, Header.bytes_eq, List.length_append, Header.fixed_length, hframe,
    ctl_framed.frame_length]
  rfl

theorem Carries.type_unique (h : Carries budget packet typ src dst body)
    (h' : Carries budget' packet typ' src' dst' body') :
    typ = typ' ∧ src = src' ∧ dst = dst' ∧ body = body' := by
  obtain ⟨header, payload, hu, -, rfl, rfl, hparse⟩ := h.reads
  obtain ⟨header', payload', hu', -, rfl, rfl, hparse'⟩ := h'.reads
  obtain ⟨rfl, rfl, -⟩ := unpack_eq_ok hu
  obtain ⟨rfl, rfl, -⟩ := unpack_eq_ok hu'
  obtain ⟨rfl, -, rfl⟩ := Prod.mk.injEq .. ▸ Except.ok.inj (hparse.symm.trans hparse')
  exact ⟨rfl, rfl, rfl, rfl⟩

/-- An echo message reads the same under every budget it fits. -/
theorem Carries.under (h : Carries budget packet typ src dst body)
    (hfits : packet.length ≤ budget') : Carries budget' packet typ src dst body := by
  obtain ⟨header, payload, hu, hnext, hsrc, hdst, hparse⟩ := h.reads
  obtain ⟨hdata, hmax, -⟩ := bytes_of_unpack hu
  have hlen : packet.length = HEADER_LEN + payload.length := by
    rw [hdata, Header.bytes_eq, List.length_append, Header.fixed_length, HEADER_LEN]
  have hvalid : validateHeader header payload = .ok () := by
    obtain ⟨rfl, rfl, -, hv⟩ := unpack_eq_ok hu
    exact hv
  refine ⟨header, payload, ?_, hnext, hsrc, hdst, hparse⟩
  rw [hdata]
  exact unpack_bytes hvalid hmax (hlen ▸ hfits)

/-- The builder writes an echo message whenever it has a body of four bytes and fits. -/
theorem build_echo (htyp : typ = CTL_ECHO_REQUEST ∨ typ = CTL_ECHO_REPLY) (hbody : 4 ≤ body.length)
    (hfits : Fits (4 + body.length) budget) (src dst : Loc) :
    ∃ packet, buildCtlWithBudget (Header.new NH_CTL src dst) typ 0 body budget = .ok packet ∧
      Carries budget packet typ src dst body := by
  obtain ⟨packet, hpacket⟩ := (ctl_framed.exact.succeeds (Header.new NH_CTL src dst) (typ, 0, body)
    budget).mpr ⟨Header.new_bare src dst, (validateCtl_echo htyp).mpr hbody, hfits⟩
  obtain ⟨payload, hu, hparse⟩ := ctl_framed.exact.reads _ (typ, 0, body) _ _ hpacket
  exact ⟨packet, hpacket, ⟨_, payload, hu, rfl, rfl, rfl, hparse⟩⟩

/-- A packet that was read within a budget is not cut by a buffer of one byte more. -/
theorem take_of_fits (h : packet.length ≤ budget) : packet.take (budget + 1) = packet :=
  List.take_of_length_le (by omega)

theorem not_cut (h : ¬ budget < (packet.take (budget + 1)).length) : packet.length ≤ budget := by
  rw [List.length_take] at h
  omega

/-- A reply is sent for every request to this locator, and for nothing else. -/
theorem respond_eq_echo : r.respond datagram = .echo reply ↔
    ∃ src body, Carries r.budget datagram CTL_ECHO_REQUEST src r.me body ∧
      buildCtlWithBudget (Header.new NH_CTL r.me src) CTL_ECHO_REPLY 0 body r.budget =
        .ok reply := by
  constructor
  · intro h
    unfold Responder.respond at h
    dsimp only at h
    split at h
    · cases h
    rename_i hcut
    have hfits := not_cut hcut
    rw [take_of_fits hfits] at h
    cases hu : Header.unpackWithBudget datagram r.budget with
    | error e => simp [hu] at h
    | ok u =>
      obtain ⟨header, payload⟩ := u
      simp only [hu] at h
      split at h
      · cases h
      rename_i hdst
      split at h
      swap
      · split at h
        · split at h <;> cases h
        · cases h
      rename_i hnext
      cases hparse : parseCtl header payload with
      | error e => simp [hparse] at h
      | ok c =>
        obtain ⟨typ, code, body⟩ := c
        simp only [hparse] at h
        split at h
        swap
        · cases h
        rename_i hecho
        obtain ⟨rfl, rfl⟩ := hecho
        unfold Responder.echoReply at h
        split at h
        · rename_i built hbuilt
          obtain rfl := Answer.echo.inj h
          exact ⟨header.src, body, ⟨header, payload, hu, hnext, rfl, not_not.mp hdst, hparse⟩,
            hbuilt⟩
        · cases h
  · rintro ⟨src, body, hc, hbuilt⟩
    obtain ⟨header, payload, hu, hnext, rfl, hdst, hparse⟩ := hc.reads
    have hfits := unpack_fits hu
    simp only [Responder.respond, take_of_fits hfits, if_neg (not_lt.mpr hfits), hu, hdst, ne_eq,
      not_true_eq_false, if_false, hnext, if_true, hparse, and_self, Responder.echoReply, hbuilt]

/-- The reply goes back as it came: same body, same length, the locators swapped. -/
theorem respond_request {src : Loc} {body : List Byte}
    (h : Carries r.budget datagram CTL_ECHO_REQUEST src r.me body) :
    ∃ reply, r.respond datagram = .echo reply ∧
      Carries r.budget reply CTL_ECHO_REPLY r.me src body ∧ reply.length = datagram.length := by
  obtain ⟨hsize, hfits, hshape⟩ := h.size
  obtain ⟨reply, hbuilt, hc⟩ := build_echo (.inr rfl)
    ((validateCtl_echo (.inl rfl)).mp hshape) hfits r.me src
  refine ⟨reply, respond_eq_echo.mpr ⟨src, body, h, hbuilt⟩, hc, ?_⟩
  rw [hc.size.1, hsize]

/-- A reply asks for nothing: no responder answers it, whatever its locator and budget. -/
theorem reply_unanswered (h : r.respond datagram = .echo reply) (r' : Responder)
    (reply' : List Byte) : r'.respond reply ≠ .echo reply' := by
  intro h'
  obtain ⟨src, body, hc, hbuilt⟩ := respond_eq_echo.mp h
  obtain ⟨reply₂, hsent, hreply, -⟩ := respond_request hc
  obtain rfl := Answer.echo.inj (h.symm.trans hsent)
  obtain ⟨src', body', hc', -⟩ := respond_eq_echo.mp h'
  have := (hreply.type_unique hc').1
  exact absurd this (by decide)

/-- The responder answers exactly the echo requests addressed to it that fit its budget, each with
one reply of the same body and length, and no reply is ever answered again. -/
theorem echo_exact (r : Responder) (datagram : List Byte) :
    ((∃ reply, r.respond datagram = .echo reply) ↔
      ∃ src body, Carries r.budget datagram CTL_ECHO_REQUEST src r.me body) ∧
    ∀ reply, r.respond datagram = .echo reply → reply.length = datagram.length ∧
      (∃ src body, Carries r.budget datagram CTL_ECHO_REQUEST src r.me body ∧
        Carries r.budget reply CTL_ECHO_REPLY r.me src body) ∧
      ∀ r' : Responder, ∀ reply', r'.respond reply ≠ .echo reply' := by
  refine ⟨⟨?_, ?_⟩, ?_⟩
  · rintro ⟨reply, h⟩
    obtain ⟨src, body, hc, -⟩ := respond_eq_echo.mp h
    exact ⟨src, body, hc⟩
  · rintro ⟨src, body, hc⟩
    obtain ⟨reply, h, -⟩ := respond_request hc
    exact ⟨reply, h⟩
  · intro reply h
    obtain ⟨src, body, hc, -⟩ := respond_eq_echo.mp h
    obtain ⟨reply₂, hsent, hreply, hlen⟩ := respond_request hc
    obtain rfl := Answer.echo.inj (h.symm.trans hsent)
    exact ⟨hlen, ⟨src, body, hc, hreply⟩, reply_unanswered h⟩

namespace Ping

theorem matched_iff : p.matched sequence x = true ↔
    x.fromPeer = true ∧ Carries p.budget x.datagram CTL_ECHO_REPLY p.target p.me
      (p.body sequence) := by
  unfold matched
  dsimp only
  constructor
  · intro h
    split at h
    · cases h
    rename_i hcut
    rw [not_or, not_not] at hcut
    rw [take_of_fits (not_cut hcut.1)] at h
    cases hu : Header.unpackWithBudget x.datagram p.budget with
    | error e => simp [hu] at h
    | ok u =>
      obtain ⟨header, payload⟩ := u
      simp only [hu] at h
      cases hparse : parseCtl header payload with
      | error e => simp [hparse] at h
      | ok c =>
        obtain ⟨typ, code, reply⟩ := c
        simp only [hparse, decide_eq_true_eq] at h
        obtain ⟨rfl, rfl, hnext, hsrc, hdst, rfl⟩ := h
        exact ⟨hcut.2, ⟨header, payload, hu, hnext, hsrc, hdst, hparse⟩⟩
  · rintro ⟨hpeer, hc⟩
    obtain ⟨header, payload, hu, hnext, hsrc, hdst, hparse⟩ := hc.reads
    have hfits := unpack_fits hu
    simp only [take_of_fits hfits, hpeer, not_true_eq_false, or_false, if_neg (not_lt.mpr hfits),
      hu, hparse, hnext, hsrc, hdst, and_self, decide_true]

theorem body_length (p : Ping) (sequence : U16) : (p.body sequence).length = 4 := by
  simp [body]

theorem body_injective (p : Ping) : Function.Injective p.body := by
  intro a b h
  have hrest := List.append_cancel_left h
  rw [← u16Of_u16Bytes a [], ← u16Of_u16Bytes b [], List.append_nil, List.append_nil, hrest]

/-- Every request fits a budget of 56 bytes, and none fits a smaller one. -/
theorem request_ok (p : Ping) (hbudget : 56 ≤ p.budget) (sequence : U16) :
    ∃ packet, p.request sequence = .ok packet ∧
      Carries p.budget packet CTL_ECHO_REQUEST p.me p.target (p.body sequence) := by
  have hfits : Fits (4 + (p.body sequence).length) p.budget := by
    rw [body_length, Fits, HEADER_LEN, SERIALIZED_R8_MAX]
    omega
  exact build_echo (.inl rfl) (by rw [body_length]) hfits p.me p.target

theorem request_error (p : Ping) (hbudget : p.budget < 56) (sequence : U16) :
    ∃ e, p.request sequence = .error e := by
  cases h : p.request sequence with
  | error e => exact ⟨e, rfl⟩
  | ok packet =>
    obtain ⟨-, -, hfits⟩ := (ctl_framed.exact.succeeds _ (CTL_ECHO_REQUEST, 0, p.body sequence)
      p.budget).mp ⟨packet, h⟩
    have := hfits.2
    rw [body_length, HEADER_LEN] at this
    omega

theorem request_length (hrequest : p.request sequence = .ok packet) : packet.length = 56 := by
  by_cases hbudget : 56 ≤ p.budget
  · obtain ⟨packet', hpacket, hc⟩ := p.request_ok hbudget sequence
    obtain rfl := Except.ok.inj (hrequest.symm.trans hpacket)
    rw [hc.size.1, body_length, HEADER_LEN]
  · obtain ⟨e, he⟩ := p.request_error (not_le.mp hbudget) sequence
    rw [he] at hrequest
    cases hrequest

/-- Behind the strays there is no reception, or the reply. -/
theorem exists_strays (p : Ping) (sequence : U16) (turns : List Turn) :
    ∃ n rest, p.Strays sequence n turns rest ∧
      ∀ x rest', rest = .received x :: rest' → p.matched sequence x = true := by
  induction turns with
  | nil => exact ⟨0, [], ⟨[], rfl, rfl, by simp⟩, by simp⟩
  | cons turn turns ih =>
    cases turn with
    | timedOut => exact ⟨0, _, ⟨[], rfl, rfl, by simp⟩, by simp⟩
    | timeoutRefused => exact ⟨0, _, ⟨[], rfl, rfl, by simp⟩, by simp⟩
    | failed => exact ⟨0, _, ⟨[], rfl, rfl, by simp⟩, by simp⟩
    | received x =>
      by_cases hx : p.matched sequence x = true
      · refine ⟨0, .received x :: turns, ⟨[], rfl, rfl, by simp⟩, ?_⟩
        rintro y rest' heq
        cases heq
        exact hx
      · obtain ⟨n, rest, ⟨xs, hlen, hturns, hxs⟩, hrest⟩ := ih
        refine ⟨n + 1, rest, ⟨x :: xs, by rw [List.length_cons, hlen], by rw [hturns]; rfl, ?_⟩,
          hrest⟩
        exact List.forall_mem_cons.mpr ⟨by simpa using hx, hxs⟩

/-- Counting on and on is counting at once. -/
theorem add_ofNat (a : U32) (m n : ℕ) :
    a + Fin.ofNat _ m + Fin.ofNat _ n = a + Fin.ofNat _ (m + n) := by
  apply Fin.ext
  simp only [Fin.val_add, Fin.val_ofNat]
  omega

/-- Strays are counted and passed over. -/
theorem await_strays (h : p.Strays sequence n turns rest) (invalid : U32) :
    p.await sequence invalid turns = p.await sequence (invalid + Fin.ofNat _ n) rest := by
  obtain ⟨xs, rfl, rfl, hxs⟩ := h
  induction xs generalizing invalid with
  | nil => simp
  | cons x xs ih =>
    obtain ⟨hx, hxs⟩ := List.forall_mem_cons.mp hxs
    have hone : (1 : U32) = Fin.ofNat _ 1 := rfl
    rw [List.map_cons, List.cons_append, await, hx, if_neg (by simp), ih _ hxs, List.length_cons,
      hone, add_ofNat, Nat.add_comm]

theorem sendPacketWith_sent (hlen : packet.length = 56) :
    sendPacketWith packet (.sent 56) = .ok 56 := by
  simp [sendPacketWith, validateSendCount, hlen, bind, Except.bind]

theorem exchange_breaks (hlen : packet.length = 56) (h : p.Breaks sequence link e) (t : Tally) :
    p.exchange sequence packet link t = .error e := by
  cases h with
  | shortCount hsend hcount =>
    simp [exchange, hsend, sendPacketWith, validateSendCount, hlen, hcount, bind, Except.bind]
  | tooLong hsend => simp [exchange, hsend, sendPacketWith, bind, Except.bind]
  | send hsend => simp [exchange, hsend, sendPacketWith, bind, Except.bind]
  | readTimeout hsend hstrays =>
    simp [exchange, hsend, sendPacketWith_sent hlen, await_strays hstrays, await, bind, Except.bind]
  | receive hsend hstrays =>
    simp [exchange, hsend, sendPacketWith_sent hlen, await_strays hstrays, await, bind, Except.bind]

theorem exchange_answered (hlen : packet.length = 56) (h : p.Answered sequence n link) (t : Tally) :
    p.exchange sequence packet link t = .ok ⟨t.received + 1, t.invalid + Fin.ofNat _ n⟩ := by
  obtain ⟨hsend, x, rest, hstrays, hx⟩ := h
  simp [exchange, hsend, sendPacketWith_sent hlen, await_strays hstrays, await, hx, bind, Except.bind]

/-- Every exchange breaks, is answered, or comes to the end of its wait without an answer. -/
theorem exchange_cases (hlen : packet.length = 56) (link : Link) (t : Tally) :
    (∃ e, p.Breaks sequence link e) ∨ (∃ n, p.Answered sequence n link) ∨
      ∃ invalid, p.exchange sequence packet link t = .ok ⟨t.received, invalid⟩ := by
  cases hsend : link.send with
  | tooLong => exact .inl ⟨_, .tooLong hsend⟩
  | failed => exact .inl ⟨_, .send hsend⟩
  | sent count =>
    by_cases hcount : count = 56
    swap
    · exact .inl ⟨_, .shortCount hsend hcount⟩
    subst hcount
    obtain ⟨n, rest, hstrays, hrest⟩ := p.exists_strays sequence link.turns
    have hexchange := await_strays hstrays t.invalid
    match rest with
    | .timeoutRefused :: _ => exact .inl ⟨_, .readTimeout hsend hstrays⟩
    | .failed :: _ => exact .inl ⟨_, .receive hsend hstrays⟩
    | .received x :: rest => exact .inr (.inl ⟨n, hsend, x, rest, hstrays, hrest x rest rfl⟩)
    | [] =>
      refine .inr (.inr ⟨t.invalid + Fin.ofNat _ n, ?_⟩)
      simp [exchange, hsend, sendPacketWith_sent hlen, hexchange, await, bind, Except.bind]
    | .timedOut :: _ =>
      refine .inr (.inr ⟨t.invalid + Fin.ofNat _ n, ?_⟩)
      simp [exchange, hsend, sendPacketWith_sent hlen, hexchange, await, bind, Except.bind]

/-- A loop in which every request is answered. -/
theorem rounds_answered (hbudget : 56 ≤ p.budget) {sequences : List U16} {strays : List ℕ}
    (h : List.Forall₂ (fun s n => p.Answered s n (io s)) sequences strays) (t : Tally) :
    (p.rounds io sequences t).2 =
      .ok ⟨t.received + Fin.ofNat _ sequences.length, t.invalid + Fin.ofNat _ strays.sum⟩ := by
  induction h generalizing t with
  | nil => simp [rounds]
  | @cons s n sequences strays hn _ ih =>
    obtain ⟨packet, hpacket, -⟩ := p.request_ok hbudget s
    have hone : (1 : U32) = Fin.ofNat _ 1 := rfl
    simp only [rounds, hpacket, exchange_answered (request_length hpacket) hn, ih, hone, add_ofNat,
      List.length_cons, List.sum_cons, Nat.add_comm 1]

/-- A loop without a failure sends every request, and the replies show in the count. -/
def Completes (p : Ping) (io : U16 → Link) (sequences : List U16) (t : Tally)
    (packets : List (List Byte)) (t' : Tally) : Prop :=
  p.rounds io sequences t = (packets, .ok t') ∧ p.Requests sequences packets ∧
    ((∃ strays, List.Forall₂ (fun s n => p.Answered s n (io s)) sequences strays) ∨
      ∃ m < sequences.length, t'.received = t.received + Fin.ofNat _ m)

theorem rounds_cases (hbudget : 56 ≤ p.budget) (io : U16 → Link) (sequences : List U16) (t : Tally) :
    (∃ before sequence after e packets, sequences = before ++ sequence :: after ∧
      (∀ s ∈ before, ∀ e, ¬ p.Breaks s (io s) e) ∧ p.Breaks sequence (io sequence) e ∧
      p.Requests (before ++ [sequence]) packets ∧ p.rounds io sequences t = (packets, .error e)) ∨
    (∀ s ∈ sequences, ∀ e, ¬ p.Breaks s (io s) e) ∧
      ∃ packets t', p.Completes io sequences t packets t' := by
  induction sequences generalizing t with
  | nil => exact .inr ⟨by simp, [], t, rfl, .nil, .inl ⟨[], .nil⟩⟩
  | cons s sequences ih =>
    obtain ⟨packet, hpacket, -⟩ := p.request_ok hbudget s
    have hlen := request_length hpacket
    by_cases hbreaks : ∃ e, p.Breaks s (io s) e
    · obtain ⟨e, he⟩ := hbreaks
      refine .inl ⟨[], s, sequences, e, [packet], rfl, by simp, he, .cons hpacket .nil, ?_⟩
      simp [rounds, hpacket, exchange_breaks hlen he]
    · rw [not_exists] at hbreaks
      -- One step of the loop, and whether it counted a reply.
      obtain ⟨t₁, hstep, hcount⟩ : ∃ t₁, p.exchange s packet (io s) t = .ok t₁ ∧
          ((∃ n, p.Answered s n (io s)) ∧ t₁.received = t.received + 1 ∨
            t₁.received = t.received) := by
        rcases exchange_cases hlen (io s) t with ⟨e, he⟩ | ⟨n, hn⟩ | ⟨invalid, hend⟩
        · exact absurd he (hbreaks e)
        · exact ⟨_, exchange_answered hlen hn t, .inl ⟨⟨n, hn⟩, rfl⟩⟩
        · exact ⟨_, hend, .inr rfl⟩
      rcases ih t₁ with ⟨before, sequence, after, e, packets, rfl, hbefore, he, hreqs, hrest⟩ |
        ⟨hall, packets, t', hrest, hreqs, hreplies⟩
      · refine .inl ⟨s :: before, sequence, after, e, packet :: packets, rfl,
          List.forall_mem_cons.mpr ⟨hbreaks, hbefore⟩, he, .cons hpacket hreqs, ?_⟩
        simp [rounds, hpacket, hstep, hrest]
      · refine .inr ⟨List.forall_mem_cons.mpr ⟨hbreaks, hall⟩, packet :: packets, t', ?_,
          .cons hpacket hreqs, ?_⟩
        · simp [rounds, hpacket, hstep, hrest]
        · have hone : (1 : U32) = Fin.ofNat _ 1 := rfl
          rcases hcount with ⟨⟨n, hn⟩, hreceived⟩ | hreceived
          · rcases hreplies with ⟨strays, hstrays⟩ | ⟨m, hm, hrest'⟩
            · exact .inl ⟨n :: strays, .cons hn hstrays⟩
            · refine .inr ⟨1 + m, by rw [List.length_cons]; omega, ?_⟩
              rw [hrest', hreceived, hone, add_ofNat]
          · rcases hreplies with ⟨strays, hstrays⟩ | ⟨m, hm, hrest'⟩
            · have hend := rounds_answered hbudget hstrays t₁
              rw [hrest] at hend
              refine .inr ⟨sequences.length, by simp, ?_⟩
              rw [Except.ok.inj hend, hreceived]
            · refine .inr ⟨m, by rw [List.length_cons]; omega, ?_⟩
              rw [hrest', hreceived]

theorem sequences_length (p : Ping) : p.sequences.length = p.count.val := by
  simp [sequences]

/-- The verdict at the end of a run without a failure. -/
theorem succeeds_iff (hbudget : 56 ≤ p.budget)
    (h : p.Completes io p.sequences ⟨0, 0⟩ packets t) :
    succeeds ⟨Fin.ofNat _ p.count.val, t.received, t.invalid⟩ = true ↔ ∃ strays,
      List.Forall₂ (fun s n => p.Answered s n (io s)) p.sequences strays ∧ 2 ^ 32 ∣ strays.sum := by
  obtain ⟨hrun, -, hreplies⟩ := h
  have hcount : p.count.val < 2 ^ 32 := p.count.isLt.trans (by norm_num)
  simp only [succeeds, decide_eq_true_eq]
  -- What the counters hold once every request is answered.
  have hanswered : ∀ {strays}, List.Forall₂ (fun s n => p.Answered s n (io s)) p.sequences strays →
      t.received = Fin.ofNat _ p.count.val ∧ (t.invalid = 0 ↔ 2 ^ 32 ∣ strays.sum) := by
    intro strays hstrays
    have hend := rounds_answered hbudget hstrays ⟨0, 0⟩
    rw [hrun, sequences_length] at hend
    rw [Except.ok.inj hend]
    refine ⟨Fin.zero_add _, ?_⟩
    simp only [Fin.zero_add, Fin.ext_iff, Fin.val_ofNat, Nat.dvd_iff_mod_eq_zero]
    exact Iff.rfl
  constructor
  · rintro ⟨hreceived, hinvalid⟩
    rcases hreplies with ⟨strays, hstrays⟩ | ⟨m, hm, hmissed⟩
    · exact ⟨strays, hstrays, (hanswered hstrays).2.mp hinvalid⟩
    · rw [sequences_length] at hm
      rw [hmissed, Fin.zero_add, Fin.ext_iff, Fin.val_ofNat, Fin.val_ofNat] at hreceived
      rw [Nat.mod_eq_of_lt hcount, Nat.mod_eq_of_lt (hm.trans hcount)] at hreceived
      omega
  · rintro ⟨strays, hstrays, hsum⟩
    obtain ⟨hreceived, hinvalid⟩ := hanswered hstrays
    exact ⟨hreceived.symm, hinvalid.mpr hsum⟩

end Ping

/-- The client fails at once on a budget of less than 56 bytes. Otherwise it sends its requests in
order up to the first one at which the socket fails, if there is one, and ends with that error. If
there is none it succeeds exactly when every request is answered and the strays come to nothing in a
counter of 32 bits. The answer is what a responder of the target sends back, to no other request. -/
theorem ping_exact (p : Ping) (io : U16 → Link) :
    (p.budget < 56 → p.run io = ([], .error .budget)) ∧
    (56 ≤ p.budget →
      (∃ before sequence after e packets, p.sequences = before ++ sequence :: after ∧
        (∀ s ∈ before, ∀ e, ¬ p.Breaks s (io s) e) ∧ p.Breaks sequence (io sequence) e ∧
        p.Requests (before ++ [sequence]) packets ∧ p.run io = (packets, .error e)) ∨
      (∀ s ∈ p.sequences, ∀ e, ¬ p.Breaks s (io s) e) ∧
        ∃ packets summary, p.Requests p.sequences packets ∧ p.run io = (packets, .ok summary) ∧
          (Ping.succeeds summary = true ↔ ∃ strays,
            List.Forall₂ (fun s n => p.Answered s n (io s)) p.sequences strays ∧
              2 ^ 32 ∣ strays.sum)) ∧
    ∀ r : Responder, r.me = p.target → 56 ≤ p.budget → 56 ≤ r.budget → ∀ sequence,
      ∃ request reply, p.request sequence = .ok request ∧ r.respond request = .echo reply ∧
        ∀ sequence', p.matched sequence' ⟨reply, true⟩ = true ↔ sequence' = sequence := by
  refine ⟨?_, ?_, ?_⟩
  · intro hbudget
    have hne : p.sequences ≠ [] := by
      rw [← List.length_pos_iff, Ping.sequences_length]
      exact Fin.pos_iff_ne_zero.mpr p.positive
    obtain ⟨s, rest, hs⟩ := List.exists_cons_of_ne_nil hne
    obtain ⟨e, he⟩ := p.request_error hbudget s
    rw [Ping.run, hs, Ping.rounds, he]
    rfl
  · intro hbudget
    rcases Ping.rounds_cases hbudget io p.sequences ⟨0, 0⟩ with
      ⟨before, sequence, after, e, packets, hs, hbefore, he, hreqs, hrun⟩ |
      ⟨hall, packets, t, hrun, hreqs, hreplies⟩
    · refine .inl ⟨before, sequence, after, e, packets, hs, hbefore, he, hreqs, ?_⟩
      rw [Ping.run, hrun]
      rfl
    · refine .inr ⟨hall, packets, ⟨Fin.ofNat _ p.count.val, t.received, t.invalid⟩, hreqs, ?_, ?_⟩
      · rw [Ping.run, hrun]
        rfl
      · exact Ping.succeeds_iff hbudget ⟨hrun, hreqs, hreplies⟩
  · intro r hme hp hr sequence
    obtain ⟨request, hrequest, hc⟩ := p.request_ok hp sequence
    have hlen := hc.size.1
    rw [Ping.body_length, HEADER_LEN] at hlen
    obtain ⟨reply, hsent, hreply, hsame⟩ := respond_request (hme ▸ hc.under (by omega))
    refine ⟨request, reply, hrequest, hsent, fun sequence' => ?_⟩
    have hfits : reply.length ≤ p.budget := by omega
    have hback := hreply.under hfits
    rw [hme] at hback
    rw [Ping.matched_iff]
    constructor
    · rintro ⟨-, hc'⟩
      exact p.body_injective (hc'.type_unique hback).2.2.2
    · rintro rfl
      exact ⟨rfl, hback⟩

end R8.Daemon
