/-
  CFiber.Ws.Session — the conversation after the handshake (`examples/ws_echo/ws_echo.c`).

  The server echoes messages, answers pings, and leaves after a close frame, its own or the peer's.
  `react` is what one frame makes it do, `answers` what it says to a sequence of frames and to what
  comes after the last one.  The peer may stop taking bytes at any time: what it gets is then the
  beginning of the answers.

    • `on_data_frame_spec` — the reassembly buffer against the message that is open;
    • `turn_spec`          — one turn of the loop does what `react` says;
    • `serve_answers`      — every conversation ends, and however its bytes arrive it gets `answers`.
-/
import CFiber.Ws.Frame

namespace CFiber.Ws

open CFiber.Base

/-! ## §1. The code. -/

/-- The fragment goes behind those of its message. -/
def add_fragment (c : Conn) (h : FrameHdr) (payload : List UInt8) : Int × Conn :=
  if h.len > (MAX_PAYLOAD + 2 ^ 64 - c.msg.length) % 2 ^ 64 then (CLOSE_TOO_BIG, c)
  else
    let c := { c with msg := c.msg ++ payload }
    if h.fin = 0 then (0, c)
    else
      let op := c.msg_op
      let c := { c with msg_op := -1 }
      let (r, fd) := send_frame c.fd (UInt8.ofInt op) c.msg
      (if r < 0 then -1 else 0, { c with fd := fd })

/-- Handle one data frame. -/
def on_data_frame (c : Conn) (h : FrameHdr) (payload : List UInt8) : Int × Conn :=
  if h.opcode = OP_CONT then
    if c.msg_op < 0 then (CLOSE_PROTOCOL, c) else add_fragment c h payload
  else if c.msg_op ≥ 0 then (CLOSE_PROTOCOL, c)
  else if h.fin ≠ 0 then
    let (r, fd) := send_frame c.fd h.opcode payload
    (if r < 0 then -1 else 0, { c with fd := fd })
  else add_fragment { c with msg_op := h.opcode.toNat, msg := [] } h payload

/-- One turn of `conn_fiber`'s loop; whether it goes on. -/
def turn (c : Conn) : Bool × Conn :=
  match recv_frame c with
  | (.error rc, c) =>
    if rc ≤ 0 then (false, c)
    else (false, { c with fd := (send_close c.fd rc).2 })
  | (.ok (h, payload), c) =>
    if h.opcode = OP_CLOSE then (false, { c with fd := (send_frame c.fd OP_CLOSE payload).2 })
    else if h.opcode = OP_PING then
      let (r, fd) := send_frame c.fd OP_PONG payload
      (decide (¬ r < 0), { c with fd := fd })
    else if h.opcode = OP_PONG then (true, c)
    else
      let (rc, c) := on_data_frame c h payload
      if rc < 0 then (false, c)
      else if rc > 0 then (false, { c with fd := (send_close c.fd rc).2 })
      else (true, c)

/-- `for (;;)`: the connection when it is left, if that is within `fuel` turns. -/
def serve : (fuel : Nat) → Conn → Option Conn
  | 0, _ => none
  | fuel + 1, c =>
    match turn c with
    | (true, c) => serve fuel c
    | (false, c) => some c

/-! ## §2. The conversation. -/

/-- The message that is open: its opcode and its bytes so far. -/
abbrev Opened := Option (UInt8 × List UInt8)

/-- What a frame makes the server do: go on with a message open or none, or leave; and what it says. -/
inductive Reaction where
  | go (o : Opened) (out : List UInt8)
  | stop (out : List UInt8)

/-- A close frame with a code. -/
def close_bytes (code : Int) : List UInt8 := server_bytes OP_CLOSE (be 2 code.toNat)

/-- A fragment of message `(op, msg)`; the last one is answered by the whole. -/
def join (op : UInt8) (msg : List UInt8) (f : Frame) : Reaction :=
  if MAX_PAYLOAD < msg.length + f.payload.length then .stop (close_bytes CLOSE_TOO_BIG)
  else if f.fin then .go none (server_bytes op (msg ++ f.payload))
  else .go (some (op, msg ++ f.payload)) []

def react (o : Opened) (f : Frame) : Reaction :=
  if f.opcode = OP_CLOSE then .stop (server_bytes OP_CLOSE f.payload)
  else if f.opcode = OP_PING then .go o (server_bytes OP_PONG f.payload)
  else if f.opcode = OP_PONG then .go o []
  else
    match o with
    | some (op, msg) =>
      if f.opcode = OP_CONT then join op msg f else .stop (close_bytes CLOSE_PROTOCOL)
    | none => if f.opcode = OP_CONT then .stop (close_bytes CLOSE_PROTOCOL) else join f.opcode [] f

/-- What the server says to bytes that begin with no frame. -/
def last_words (s : List UInt8) : List UInt8 :=
  match parse s with
  | .error (.refused code) => close_bytes code
  | _ => []

/-- What it says to frames and to the bytes behind them. -/
def answers : Opened → List Frame → List UInt8 → List UInt8
  | _, [], s => last_words s
  | o, f :: fs, s =>
    match react o f with
    | .go o out => out ++ answers o fs s
    | .stop out => out

/-! ## §3. The reassembly buffer. -/

/-- The connection has this message open. -/
def Holds (c : Conn) : Opened → Prop
  | none => c.msg_op = -1
  | some (op, msg) => c.msg_op = op.toNat ∧ c.msg = msg ∧ msg.length ≤ MAX_PAYLOAD

theorem sent_line {c : Conn} {fd : Wire} {bytes : List UInt8} (h : fd.line = c.fd.line.send bytes) :
    { c with fd := fd }.line = c.line.send bytes := by
  rw [Conn.line, h]
  rfl

/-- A frame that is sent from the connection. -/
theorem conn_send (c : Conn) (opcode : UInt8) (payload : List UInt8)
    (h : payload.length ≤ MAX_PAYLOAD) :
    ∃ fd, send_frame c.fd opcode payload =
        (if (server_bytes opcode payload).length ≤ c.line.room then 0 else -1, fd) ∧
      { c with fd := fd }.line = c.line.send (server_bytes opcode payload) := by
  obtain ⟨fd, hsend, hline⟩ := send_frame_spec c.fd opcode payload
    (by unfold MAX_PAYLOAD at h; omega)
  exact ⟨fd, hsend, sent_line hline⟩

/-- What `on_data_frame` returns, against a reaction: the peer was told all of it, or no longer takes
    all of it; or a close frame is due. -/
inductive Handled (c : Conn) : Int × Conn → Reaction → Prop
  | go {rc : Int} {c' : Conn} {o : Opened} {out : List UInt8} (holds : Holds c' o)
    (line : c'.line = c.line.send out) (told : rc = if out.length ≤ c.line.room then 0 else -1) :
    Handled c (rc, c') (.go o out)
  | stop {c' : Conn} {code : Int} (which : code = CLOSE_PROTOCOL ∨ code = CLOSE_TOO_BIG)
    (line : c'.line = c.line) : Handled c (code, c') (.stop (close_bytes code))

theorem Handled.of_line {c c₀ : Conn} {res : Int × Conn} {r : Reaction} (h : c.line = c₀.line)
    (hc : Handled c res r) : Handled c₀ res r := by
  cases hc with
  | go holds line told => exact .go holds (by rw [line, h]) (by rw [told, h])
  | stop which line => exact .stop which (by rw [line, h])

theorem ofInt_toNat (op : UInt8) : UInt8.ofInt (op.toNat : Int) = op := by
  have hop := op.toNat_lt
  rw [← UInt8.toNat_inj, UInt8.ofInt, UInt8.toNat_ofNat']
  omega

/-- A call's status, passed on. -/
theorem passed_on (n room : Nat) :
    (if (if n ≤ room then (0 : Int) else -1) < 0 then (-1 : Int) else 0) =
      if n ≤ room then 0 else -1 := by
  split_ifs
  all_goals first | rfl | omega

/-- A fragment of the message that is open. -/
theorem add_fragment_spec {c : Conn} {op : UInt8} (hop : c.msg_op = op.toNat)
    (hmsg : c.msg.length ≤ MAX_PAYLOAD) (f : Frame) :
    Handled c (add_fragment c f.hdr f.payload) (join op c.msg f) := by
  have hfree : (MAX_PAYLOAD + 2 ^ 64 - c.msg.length) % 2 ^ 64 = MAX_PAYLOAD - c.msg.length := by
    unfold MAX_PAYLOAD at hmsg ⊢
    omega
  unfold add_fragment join
  rw [hfree]
  by_cases hbig : MAX_PAYLOAD < c.msg.length + f.payload.length
  · rw [if_pos (show f.hdr.len > MAX_PAYLOAD - c.msg.length from by
      show f.payload.length > _
      omega), if_pos hbig]
    exact .stop (Or.inr rfl) rfl
  · rw [if_neg (show ¬ f.hdr.len > MAX_PAYLOAD - c.msg.length from by
      show ¬ f.payload.length > _
      omega), if_neg hbig]
    have hlen : (c.msg ++ f.payload).length ≤ MAX_PAYLOAD := by
      rw [List.length_append]
      omega
    by_cases hfin : f.fin = true
    · -- the message is whole
      have hfin' : f.hdr.fin ≠ 0 := by
        show (if f.fin then 0x80 else (0 : UInt8)) ≠ 0
        rw [if_pos hfin]
        decide
      obtain ⟨fd, hsend, hline⟩ := conn_send { c with msg := c.msg ++ f.payload, msg_op := -1 } op
        _ hlen
      rw [if_pos hfin]
      dsimp only at hsend hline ⊢
      rw [if_neg hfin', hop, ofInt_toNat, hsend]
      exact .go rfl hline (passed_on _ _)
    · have hfin' : f.hdr.fin = 0 := by
        show (if f.fin then 0x80 else (0 : UInt8)) = 0
        rw [if_neg hfin]
      rw [if_neg hfin]
      dsimp only
      rw [if_pos hfin']
      exact .go ⟨hop, rfl, hlen⟩ (Line.send_nil _).symm (if_pos (Nat.zero_le _)).symm

/-- **`on_data_frame`** does what `react` says of a data frame. -/
theorem on_data_frame_spec {c : Conn} {o : Opened} (hc : Holds c o) {f : Frame}
    (hclose : f.opcode ≠ OP_CLOSE) (hping : f.opcode ≠ OP_PING) (hpong : f.opcode ≠ OP_PONG) :
    Handled c (on_data_frame c f.hdr f.payload) (react o f) := by
  unfold on_data_frame react
  rw [if_neg hclose, if_neg hping, if_neg hpong]
  by_cases hcont : f.opcode = OP_CONT
  · rw [if_pos (show f.hdr.opcode = OP_CONT from hcont)]
    match o, hc with
    | none, hc =>
        change c.msg_op = -1 at hc
        dsimp only
        rw [if_pos (by omega), if_pos hcont]
        exact .stop (Or.inl rfl) rfl
    | some (op, msg), ⟨hop, hmsg, hlen⟩ =>
        dsimp only
        rw [if_neg (by omega), if_pos hcont, ← hmsg]
        exact add_fragment_spec hop (by rw [hmsg]; exact hlen) f
  · rw [if_neg (show ¬ f.hdr.opcode = OP_CONT from hcont)]
    match o, hc with
    | none, hc =>
        change c.msg_op = -1 at hc
        dsimp only
        rw [if_neg (by omega), if_neg hcont]
        by_cases hfin : f.fin = true
        · -- the message is one frame
          have hfin' : f.hdr.fin ≠ 0 := by
            show (if f.fin then 0x80 else (0 : UInt8)) ≠ 0
            rw [if_pos hfin]
            decide
          have hsmall : ¬ MAX_PAYLOAD < ([] : List UInt8).length + f.payload.length := by
            rw [List.length_nil, Nat.zero_add]
            exact Nat.not_lt.mpr f.small
          obtain ⟨fd, hsend, hline⟩ := conn_send c f.opcode f.payload f.small
          have hsend : send_frame c.fd f.hdr.opcode f.payload = _ := hsend
          rw [if_pos hfin', join, if_neg hsmall, if_pos hfin, List.nil_append, hsend]
          exact .go hc hline (passed_on _ _)
        · have hfin' : ¬ f.hdr.fin ≠ 0 := by
            show ¬ (if f.fin then 0x80 else (0 : UInt8)) ≠ 0
            rw [if_neg hfin]
            decide
          rw [if_neg hfin']
          obtain ⟨c', hc'⟩ : ∃ c' : Conn, c' = { c with msg_op := f.hdr.opcode.toNat, msg := [] } :=
            ⟨_, rfl⟩
          have hline : c'.line = c.line := by rw [hc']; rfl
          have hadd := @add_fragment_spec c' f.opcode (by rw [hc']; rfl)
            (by rw [hc']; exact Nat.zero_le _) f
          have hmsg : c'.msg = [] := by rw [hc']
          rw [hmsg] at hadd
          rw [← hc']
          exact hadd.of_line hline
    | some (op, msg), ⟨hop, hmsg, hlen⟩ =>
        dsimp only
        rw [if_pos (by omega), if_neg hcont]
        exact .stop (Or.inl rfl) rfl

/-! ## §4. One turn. -/

theorem close_payload {code : Int} (h : code = CLOSE_PROTOCOL ∨ code = CLOSE_TOO_BIG) :
    [UInt8.ofInt (code >>> (8 : Nat)), UInt8.ofInt code] = be 2 code.toNat := by
  rcases h with rfl | rfl <;> decide

/-- A close frame that is sent from the connection. -/
theorem conn_close (c : Conn) {code : Int} (h : code = CLOSE_PROTOCOL ∨ code = CLOSE_TOO_BIG) :
    { c with fd := (send_close c.fd code).2 }.line = c.line.send (close_bytes code) := by
  obtain ⟨fd, hsend, hline⟩ := conn_send c OP_CLOSE (be 2 code.toNat)
    (by rw [be_length]; decide)
  rw [send_close, close_payload h, hsend]
  exact hline

/-- What a turn has done, against what it reads: a frame, or the end of the conversation. -/
inductive Turned (c : Conn) (o : Opened) : Bool × Conn → Prop
  | go {f : Frame} {o' : Opened} {out : List UInt8} {c₁ c' : Conn} {more : Bool}
    (frame : c.stream = f.bytes ++ c₁.stream) (reads : Reads c c₁) (does : react o f = .go o' out)
    (holds : Holds c' o') (line : c'.line = c₁.line.send out)
    (told : more = decide (out.length ≤ c₁.line.room)) : Turned c o (more, c')
  | stop {f : Frame} {out : List UInt8} {c₁ c' : Conn} (frame : c.stream = f.bytes ++ c₁.stream)
    (reads : Reads c c₁) (does : react o f = .stop out) (line : c'.line = c₁.line.send out) :
    Turned c o (false, c')
  | last {c₁ c' : Conn} (frame : ¬ Begins c.stream) (reads : Reads c c₁)
    (line : c'.line = c₁.line.send (last_words c.stream)) : Turned c o (false, c')

theorem Holds.reads {c c' : Conn} {o : Opened} (h : Holds c o) (hr : Reads c c') : Holds c' o := by
  cases o with
  | none => exact hr.kept.msg_op.trans h
  | some m => exact ⟨hr.kept.msg_op.trans h.1, hr.kept.msg.trans h.2.1, h.2.2⟩

theorem holds_fd {c : Conn} {o : Opened} (h : Holds c o) (fd : Wire) : Holds { c with fd := fd } o := by
  cases o with
  | none => exact h
  | some m => exact h

/-- A data frame. -/
theorem turn_data {c c₁ : Conn} {o : Opened} (hc : Holds c₁ o) {f : Frame} (hr : Reads c c₁)
    (hframe : c.stream = f.bytes ++ c₁.stream) (hclose : f.opcode ≠ OP_CLOSE)
    (hping : f.opcode ≠ OP_PING) (hpong : f.opcode ≠ OP_PONG) :
    Turned c o
      (let (rc, c) := on_data_frame c₁ f.hdr f.payload
      if rc < 0 then (false, c)
      else if rc > 0 then (false, { c with fd := (send_close c.fd rc).2 })
      else (true, c)) := by
  have hhandled := on_data_frame_spec hc hclose hping hpong
  generalize on_data_frame c₁ f.hdr f.payload = res at hhandled
  generalize hdoes : react o f = r at hhandled
  cases hhandled with
  | @go rc c' o' out holds line told =>
      dsimp only
      by_cases hfit : out.length ≤ c₁.line.room
      · rw [if_pos hfit] at told
        subst told
        rw [if_neg (by decide), if_neg (by decide)]
        exact .go hframe hr hdoes holds line (by simp [hfit])
      · rw [if_neg hfit] at told
        subst told
        rw [if_pos (by decide)]
        exact .go hframe hr hdoes holds line (by simp [hfit])
  | @stop c' code which line =>
      have hpos : ¬ code < 0 ∧ code > 0 := by rcases which with rfl | rfl <;> decide
      dsimp only
      rw [if_neg hpos.1, if_pos hpos.2]
      refine .stop hframe hr hdoes ?_
      rw [conn_close c' which, line]

/-- A turn that reads a frame. -/
theorem turn_frame {c c₁ : Conn} {o : Opened} (hc : Holds c₁ o) {f : Frame} (hr : Reads c c₁)
    (hframe : c.stream = f.bytes ++ c₁.stream) (hrecv : recv_frame c = (.ok (f.hdr, f.payload), c₁)) :
    Turned c o (turn c) := by
  unfold turn
  rw [hrecv]
  dsimp only
  by_cases hclose : f.opcode = OP_CLOSE
  · obtain ⟨fd, hsend, hline⟩ := conn_send c₁ OP_CLOSE f.payload f.small
    rw [if_pos (show f.hdr.opcode = OP_CLOSE from hclose), hsend]
    exact .stop hframe hr (if_pos hclose) hline
  rw [if_neg (show ¬ f.hdr.opcode = OP_CLOSE from hclose)]
  by_cases hping : f.opcode = OP_PING
  · obtain ⟨fd, hsend, hline⟩ := conn_send c₁ OP_PONG f.payload f.small
    have hgo : react o f = .go o (server_bytes OP_PONG f.payload) := by
      unfold react
      rw [if_neg hclose, if_pos hping]
    rw [if_pos (show f.hdr.opcode = OP_PING from hping), hsend]
    refine .go hframe hr hgo (holds_fd hc fd) hline ?_
    dsimp only
    split_ifs with hfit
    all_goals simp [hfit]
  rw [if_neg (show ¬ f.hdr.opcode = OP_PING from hping)]
  by_cases hpong : f.opcode = OP_PONG
  · have hgo : react o f = .go o [] := by
      unfold react
      rw [if_neg hclose, if_neg hping, if_pos hpong]
    rw [if_pos (show f.hdr.opcode = OP_PONG from hpong)]
    exact .go hframe hr hgo hc (Line.send_nil _).symm (by simp)
  rw [if_neg (show ¬ f.hdr.opcode = OP_PONG from hpong)]
  exact turn_data hc hr hframe hclose hping hpong

/-- **One turn of the loop.** -/
theorem turn_spec {c : Conn} {o : Opened} (hc : Holds c o) : Turned c o (turn c) := by
  have hagrees := recv_frame_stream c
  generalize hrecv : recv_frame c = res at hagrees
  generalize hp : parse c.stream = p at hagrees
  cases hagrees with
  | @short c₁ hr =>
      have hnot : ¬ Begins c.stream := by
        rw [begins_iff, hp]
        simp
      have hnone : last_words c.stream = [] := by rw [last_words, hp]
      have hcode : short_code c ≤ 0 := by
        unfold short_code
        split_ifs
        · exact Ending.code_le _
        · decide
      unfold turn
      rw [hrecv]
      dsimp only
      rw [if_pos hcode]
      exact .last hnot hr (by rw [hnone, Line.send_nil])
  | @refused c₁ code hr =>
      have hnot : ¬ Begins c.stream := by
        rw [begins_iff, hp]
        simp
      have hwords : last_words c.stream = close_bytes code := by rw [last_words, hp]
      have hwhich := refused_code hp
      unfold turn
      rw [hrecv]
      dsimp only
      rw [if_neg (by rcases hwhich with rfl | rfl <;> decide)]
      exact .last hnot hr (by rw [hwords]; exact conn_close c₁ hwhich)
  | @ok a b c₁ hr hab =>
      subst hab
      obtain ⟨f, rfl, hframe⟩ := parse_ok.mp hp
      exact turn_frame (hc.reads hr) hr hframe hrecv

/-! ## §5. The whole conversation. -/

/-- The bytes of frames. -/
def frames_bytes (fs : List Frame) : List UInt8 := fs.flatMap Frame.bytes

theorem bytes_length (f : Frame) : 0 < f.bytes.length := by
  rw [Frame.bytes, head]
  simp

theorem react_congr {f g : Frame} (hhdr : f.hdr = g.hdr) (hpayload : f.payload = g.payload)
    (o : Opened) : react o f = react o g := by
  have hop : f.opcode = g.opcode := congrArg FrameHdr.opcode hhdr
  have hbyte : (if f.fin then 0x80 else (0 : UInt8)) = if g.fin then 0x80 else 0 :=
    congrArg FrameHdr.fin hhdr
  have hfin : f.fin = g.fin := by
    cases hf : f.fin <;> cases hg : g.fin <;> simp [hf, hg] at hbyte ⊢
  unfold react join
  rw [hop, hpayload, hfin]

/-- The frame that is read is the one that was sent. -/
theorem frame_unique {f g : Frame} {s t : List UInt8} (h : f.bytes ++ s = g.bytes ++ t) :
    s = t ∧ ∀ o, react o f = react o g := by
  have hf := parse_bytes f s
  rw [h, parse_bytes g t] at hf
  injection hf with hf
  injection hf with hx hrest
  injection hx with hhdr hpayload
  exact ⟨hrest.symm, react_congr hhdr.symm hpayload.symm⟩

/-- **A conversation of frames**, by induction on them. -/
theorem serve_frames {s : List UInt8} (hs : ¬ Begins s) (fs : List Frame) :
    ∀ (fuel : Nat) {o : Opened} {c : Conn}, Holds c o → c.stream = frames_bytes fs ++ s →
      fs.length < fuel →
      ∃ k c', serve fuel c = some c' ∧ c'.line = (c.line.skip k).send (answers o fs s) := by
  induction fs with
  | nil =>
      intro fuel o c hc hstream hfuel
      obtain ⟨fuel, rfl⟩ : ∃ n, fuel = n + 1 := ⟨fuel - 1, by omega⟩
      change c.stream = s at hstream
      have hturn := turn_spec hc
      rw [serve]
      generalize turn c = res at hturn
      cases hturn with
      | go frame => exact absurd ⟨_, _, hstream.symm.trans frame⟩ hs
      | stop frame => exact absurd ⟨_, _, hstream.symm.trans frame⟩ hs
      | @last c₁ c' _ reads line =>
          obtain ⟨k, hk⟩ := reads.line
          refine ⟨k, c', rfl, ?_⟩
          rw [line, hk, hstream]
          rfl
  | cons f fs ih =>
      intro fuel o c hc hstream hfuel
      obtain ⟨fuel, rfl⟩ : ∃ n, fuel = n + 1 := ⟨fuel - 1, by omega⟩
      rw [List.length_cons] at hfuel
      have hstream : c.stream = f.bytes ++ (frames_bytes fs ++ s) := by
        rw [hstream, frames_bytes, List.flatMap_cons, List.append_assoc]
        rfl
      have hturn := turn_spec hc
      rw [serve]
      generalize turn c = res at hturn
      cases hturn with
      | @go g o' out c₁ c' more frame reads does holds line told =>
          obtain ⟨hrest, hreact⟩ := frame_unique (hstream.symm.trans frame)
          obtain ⟨k, hk⟩ := reads.line
          have hanswers : answers o (f :: fs) s = out ++ answers o' fs s := by
            rw [answers, hreact, does]
          by_cases hfit : out.length ≤ c₁.line.room
          · have hmore : more = true := by rw [told]; exact decide_eq_true hfit
            have hstream' : c'.stream = frames_bytes fs ++ s := by
              have hinput := congrArg Line.input line
              rw [hrest]
              exact hinput
            obtain ⟨k', c'', hserve, hline⟩ := ih fuel holds hstream' (by omega)
            refine ⟨k + k', c'', by rw [hmore]; exact hserve, ?_⟩
            rw [hline, line, hk, hanswers, ← Line.send_send, ← Line.skip_skip]
            rfl
          · -- the peer no longer takes all of it
            have hmore : more = false := by rw [told]; exact decide_eq_false hfit
            refine ⟨k, c', by rw [hmore], ?_⟩
            rw [line, hanswers, Line.send_full (by rw [← hk]; omega), hk]
      | @stop g out c₁ c' frame reads does line =>
          obtain ⟨-, hreact⟩ := frame_unique (hstream.symm.trans frame)
          obtain ⟨k, hk⟩ := reads.line
          have hanswers : answers o (f :: fs) s = out := by rw [answers, hreact, does]
          exact ⟨k, c', rfl, by rw [line, hk, hanswers]⟩
      | last frame => exact absurd ⟨f, _, hstream⟩ frame

theorem frames_length (fs : List Frame) : fs.length ≤ (frames_bytes fs).length := by
  induction fs with
  | nil => exact Nat.le_refl _
  | cons f fs ih =>
      have hpos := bytes_length f
      have hsplit : frames_bytes (f :: fs) = f.bytes ++ frames_bytes fs := List.flatMap_cons
      rw [hsplit, List.length_append, List.length_cons]
      omega

/-- Every stream is frames and something that begins with none. -/
theorem decompose (n : Nat) : ∀ s : List UInt8, s.length ≤ n →
    ∃ fs t, s = frames_bytes fs ++ t ∧ ¬ Begins t ∧ fs.length ≤ s.length := by
  induction n with
  | zero =>
      intro s hs
      obtain rfl : s = [] := List.eq_nil_of_length_eq_zero (Nat.le_zero.mp hs)
      refine ⟨[], [], rfl, ?_, Nat.le_refl _⟩
      rintro ⟨f, rest, h⟩
      have hlen := congrArg List.length h
      have hpos := bytes_length f
      rw [List.length_nil, List.length_append] at hlen
      omega
  | succ n ih =>
      intro s hs
      by_cases hbegins : Begins s
      · obtain ⟨f, rest, rfl⟩ := hbegins
        have hpos := bytes_length f
        rw [List.length_append] at hs
        obtain ⟨fs, t, hrest, ht, hle⟩ := ih rest (by omega)
        refine ⟨f :: fs, t, ?_, ht, ?_⟩
        · rw [frames_bytes, List.flatMap_cons, List.append_assoc]
          exact congrArg _ hrest
        · rw [List.length_cons, List.length_append]
          omega
      · exact ⟨[], s, rfl, hbegins, Nat.zero_le _⟩

/-- **The echo server's conversation**: it ends, and what the peer has been handed is the beginning of
    the answers to its frames, up to what it was ready to take; how the bytes arrived, and what the
    kernel gave each call, does not show. -/
theorem serve_answers {c : Conn} (hc : c.msg_op = -1) :
    ∃ fs s k c', c.stream = frames_bytes fs ++ s ∧ ¬ Begins s ∧
      serve (c.stream.length + 1) c = some c' ∧
      c'.line = (c.line.skip k).send (answers none fs s) := by
  obtain ⟨fs, s, hstream, hs, hle⟩ := decompose c.stream.length c.stream (Nat.le_refl _)
  obtain ⟨k, c', hserve, hline⟩ :=
    serve_frames hs fs (c.stream.length + 1) (o := none) hc hstream (by omega)
  exact ⟨fs, s, k, c', hstream, hs, hserve, hline⟩

/-- A ping, and a frame cut short. -/
def pinged : Conn :=
  ⟨⟨[0x89, 0x81, 0x01, 0x02, 0x03, 0x04, 0x69, 0x81, 0x80], .reset, [.bytes 4], [], 2, []⟩, [], 0, [],
    -1⟩

theorem serve_answers_pinged :
    ∃ fs s k c', pinged.stream = frames_bytes fs ++ s ∧ ¬ Begins s ∧
      serve (pinged.stream.length + 1) pinged = some c' ∧
      c'.line = (pinged.line.skip k).send (answers none fs s) :=
  serve_answers rfl

end CFiber.Ws
