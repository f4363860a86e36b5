/-
  CFiber.Ws.Messages — messages through the echo server, end to end.

  A client cuts each message into fragments as it likes, and puts pings and pongs between them.  The
  server answers every ping, and every message by the whole of it with its opcode: what a client
  reads back are these replies, in order, wherever either side's bytes were cut on their way.

    • `answers_message` — one message in fragments;
    • `echo_end_to_end` — messages and a close frame, from the client and back to it.
-/
import CFiber.Ws.Base64
import CFiber.Ws.Client

namespace CFiber.Ws

open CFiber.Base

/-! ## §1. Messages. -/

/-- A fragment, and the control frames in front of it. -/
structure Part where
  before : List Frame
  mask : List UInt8
  payload : List UInt8
  controls : ∀ f ∈ before, f.opcode = OP_PING ∨ f.opcode = OP_PONG
  small : payload.length ≤ MAX_PAYLOAD
  mask_length : mask.length = 4

def Part.frame (p : Part) (fin : Bool) (opcode : UInt8) (h : opcode ≤ OP_BIN) : Frame where
  fin := fin
  opcode := opcode
  mask := p.mask
  payload := p.payload
  known := Or.inl h
  control := fun hclose => absurd (UInt8.le_trans hclose h) (by decide)
  small := p.small
  mask_length := p.mask_length

/-- The bytes of fragments. -/
def whole (ps : List Part) : List UInt8 := ps.flatMap Part.payload

/-- The fragments behind the first one; the last of them ends the message. -/
def later : List Part → List Frame
  | [] => []
  | p :: ps => p.before ++ p.frame ps.isEmpty OP_CONT (by decide) :: later ps

/-- A message in fragments, which the server has room for. -/
structure Message where
  opcode : UInt8
  first : Part
  more : List Part
  kind : opcode = OP_TEXT ∨ opcode = OP_BIN
  fits : (whole (first :: more)).length ≤ MAX_PAYLOAD

namespace Message

theorem opcode_le (m : Message) : m.opcode ≤ OP_BIN := by
  rcases m.kind with h | h <;> rw [h] <;> decide

def frames (m : Message) : List Frame :=
  m.first.before ++ m.first.frame m.more.isEmpty m.opcode m.opcode_le :: later m.more

end Message

/-- The answers to pings. -/
def pongs (fs : List Frame) : List (UInt8 × List UInt8) :=
  fs.filterMap fun f => if f.opcode = OP_PING then some (OP_PONG, f.payload) else none

/-- What a client is to read back. -/
def Message.replies (m : Message) : List (UInt8 × List UInt8) :=
  (m.first :: m.more).flatMap (fun p => pongs p.before) ++ [(m.opcode, whole (m.first :: m.more))]

/-! ## §2. One message. -/

theorem replies_append (a b : List (UInt8 × List UInt8)) :
    replies_bytes (a ++ b) = replies_bytes a ++ replies_bytes b := List.flatMap_append

/-- Control frames do not touch the message. -/
theorem answers_controls (o : Opened) (fs : List Frame) (s : List UInt8) (before : List Frame)
    (h : ∀ f ∈ before, f.opcode = OP_PING ∨ f.opcode = OP_PONG) :
    answers o (before ++ fs) s = replies_bytes (pongs before) ++ answers o fs s := by
  induction before with
  | nil => rfl
  | cons f before ih =>
      have ih := ih fun g hg => h g (List.mem_cons_of_mem f hg)
      rw [List.cons_append, answers]
      unfold react
      rcases h f List.mem_cons_self with hop | hop
      · have hpongs : pongs (f :: before) = (OP_PONG, f.payload) :: pongs before := by
          simp [pongs, hop]
        rw [if_neg (by rw [hop]; decide), if_pos hop, hpongs]
        dsimp only
        rw [ih, ← List.append_assoc]
        rfl
      · have hpongs : pongs (f :: before) = pongs before := by
          have hne : ¬ f.opcode = OP_PING := by rw [hop]; decide
          simp [pongs, hne]
        rw [if_neg (by rw [hop]; decide), if_neg (by rw [hop]; decide), if_pos hop, hpongs]
        exact ih

/-- A continuation of the message that is open. -/
theorem react_cont {op : UInt8} {msg : List UInt8} {p : Part} (fin : Bool)
    (hfit : msg.length + p.payload.length ≤ MAX_PAYLOAD) :
    react (some (op, msg)) (p.frame fin OP_CONT (by decide)) =
      if fin then .go none (server_bytes op (msg ++ p.payload))
      else .go (some (op, msg ++ p.payload)) [] := by
  show join op msg (p.frame fin OP_CONT (by decide)) = _
  exact if_neg (Nat.not_lt.mpr hfit)

/-- The fragments behind the first one, by induction on them. -/
theorem answers_later (op : UInt8) (fs : List Frame) (s : List UInt8) (ps : List Part) :
    ∀ msg : List UInt8, ps ≠ [] → msg.length + (whole ps).length ≤ MAX_PAYLOAD →
      answers (some (op, msg)) (later ps ++ fs) s =
        replies_bytes (ps.flatMap (fun p => pongs p.before) ++ [(op, msg ++ whole ps)]) ++
          answers none fs s := by
  induction ps with
  | nil => exact fun msg h => absurd rfl h
  | cons p ps ih =>
      intro msg _ hfit
      have hwhole : whole (p :: ps) = p.payload ++ whole ps := List.flatMap_cons
      rw [hwhole, List.length_append] at hfit
      rw [later, List.append_assoc, List.cons_append, answers_controls _ _ _ _ p.controls, answers,
        react_cont _ (by omega), hwhole]
      cases ps with
      | nil =>
          simp [replies_bytes, whole, later]
      | cons q ps =>
          have hrest := ih (msg ++ p.payload) (List.cons_ne_nil q ps) (by
            rw [List.length_append]
            omega)
          simp only [List.isEmpty_cons, Bool.false_eq_true, if_false]
          rw [hrest]
          simp [replies_bytes]

/-- The first fragment, when no message is open. -/
theorem react_first {op : UInt8} {p : Part} (fin : Bool) (hop : op = OP_TEXT ∨ op = OP_BIN)
    (hle : op ≤ OP_BIN) :
    react none (p.frame fin op hle) =
      if fin then .go none (server_bytes op p.payload) else .go (some (op, p.payload)) [] := by
  have hjoin : react none (p.frame fin op hle) = join op [] (p.frame fin op hle) := by
    rcases hop with rfl | rfl <;> rfl
  have hfit : ¬ MAX_PAYLOAD < ([] : List UInt8).length + p.payload.length := by
    rw [List.length_nil, Nat.zero_add]
    exact Nat.not_lt.mpr p.small
  rw [hjoin]
  exact if_neg hfit

/-- **One message in fragments**, with control frames between them. -/
theorem answers_message (m : Message) (fs : List Frame) (s : List UInt8) :
    answers none (m.frames ++ fs) s = replies_bytes m.replies ++ answers none fs s := by
  have hwhole : whole (m.first :: m.more) = m.first.payload ++ whole m.more := List.flatMap_cons
  have hfits := m.fits
  rw [hwhole, List.length_append] at hfits
  rw [Message.frames, List.append_assoc, List.cons_append,
    answers_controls _ _ _ _ m.first.controls, answers, react_first _ m.kind, Message.replies, hwhole]
  cases hmore : m.more with
  | nil => simp [replies_bytes, whole, later]
  | cons p ps =>
      rw [hmore] at hfits
      have hrest := answers_later m.opcode fs s (p :: ps) m.first.payload (List.cons_ne_nil p ps) hfits
      simp only [List.isEmpty_cons, Bool.false_eq_true, if_false]
      rw [hrest]
      simp [replies_bytes]

/-! ## §3. End to end. -/

/-- Messages, by induction on them. -/
theorem answers_messages (fs : List Frame) (s : List UInt8) (ms : List Message) :
    answers none (ms.flatMap Message.frames ++ fs) s =
      replies_bytes (ms.flatMap Message.replies) ++ answers none fs s := by
  induction ms with
  | nil => rfl
  | cons m ms ih =>
      rw [List.flatMap_cons, List.flatMap_cons, List.append_assoc, answers_message, ih,
        replies_append, List.append_assoc]

/-- What the client reads back to messages and a close frame. -/
def echo (ms : List Message) (close : Frame) : List (UInt8 × List UInt8) :=
  ms.flatMap Message.replies ++ [(OP_CLOSE, close.payload)]

theorem server_bytes_close (f : Frame) (h : f.opcode = OP_CLOSE) (o : Opened) :
    react o f = .stop (replies_bytes [(OP_CLOSE, f.payload)]) := by
  have hclose : react o f = .stop (server_bytes OP_CLOSE f.payload) := if_pos h
  rw [hclose]
  simp [replies_bytes]

/-- Every reply is one that the client has room for. -/
theorem echo_small (ms : List Message) (close : Frame) :
    ∀ r ∈ echo ms close, Known r.1 ∧ r.2.length ≤ MAX_PAYLOAD := by
  intro r hr
  rcases List.mem_append.mp hr with hr | hr
  · obtain ⟨m, -, hr⟩ := List.mem_flatMap.mp hr
    rcases List.mem_append.mp hr with hr | hr
    · obtain ⟨p, -, hr⟩ := List.mem_flatMap.mp hr
      obtain ⟨f, -, hf⟩ := List.mem_filterMap.mp hr
      split_ifs at hf
      obtain rfl := Option.some.inj hf
      exact ⟨(by decide : Known OP_PONG), f.small⟩
    · rw [List.mem_singleton] at hr
      subst hr
      exact ⟨Or.inl m.opcode_le, m.fits⟩
  · rw [List.mem_singleton] at hr
    subst hr
    exact ⟨(by decide : Known OP_CLOSE), close.small⟩

/-- The server stops at the close frame, whatever frames follow it. -/
theorem echo_frames (ms : List Message) (close : Frame) (hclose : close.opcode = OP_CLOSE)
    (rest : List UInt8) :
    ∃ fs t, frames_bytes (ms.flatMap Message.frames ++ [close]) ++ rest = frames_bytes fs ++ t ∧
      ¬ Begins t ∧ answers none fs t = replies_bytes (echo ms close) := by
  obtain ⟨gs, t, hrest, ht, -⟩ := decompose rest.length rest (Nat.le_refl _)
  refine ⟨ms.flatMap Message.frames ++ close :: gs, t, ?_, ht, ?_⟩
  · rw [hrest, frames_bytes, frames_bytes, frames_bytes, ← List.append_assoc, ← List.flatMap_append,
      List.append_assoc]
    rfl
  · rw [answers_messages, answers, server_bytes_close close hclose, echo, replies_append]

/-- The client takes the replies apart. -/
theorem client_reads_echo (ms : List Message) (close : Frame) {fd : Wire}
    (hfd : fd.inbox = replies_bytes (echo ms close)) :
    ∃ fd', client_recvs MAX_PAYLOAD (echo ms close).length fd = ((echo ms close).map some, fd') ∧
      fd'.inbox = [] := by
  have hsmall : ∀ r ∈ echo ms close, Known r.1 ∧ r.2.length ≤ MAX_PAYLOAD ∧ r.2.length < 2 ^ 63 := by
    intro r hr
    obtain ⟨hop, hle⟩ := echo_small ms close r hr
    exact ⟨hop, hle, by unfold MAX_PAYLOAD at hle; omega⟩
  have hall : fd.inbox = replies_bytes (echo ms close) ++ [] := hfd.trans (List.append_nil _).symm
  obtain ⟨fd', hreads, hline⟩ := client_recv_frames (echo ms close) fd hsmall hall
  exact ⟨fd', hreads, inbox_behind hall hline⟩

/-- **End to end**: a client sends messages, each in fragments of its choice with control frames
    between them, and a close frame, and after that whatever it likes.  The server leaves, and the
    client, reading what it was handed, gets a pong for every ping, every message whole with its
    opcode, and the close frame, in the order of its own frames.  Where the bytes were cut on their
    way to the server and back does not show. -/
theorem echo_end_to_end {c : Conn} (hc : c.msg_op = -1) (ms : List Message) (close : Frame)
    (hclose : close.opcode = OP_CLOSE) (rest : List UInt8)
    (hstream : c.stream = frames_bytes (ms.flatMap Message.frames ++ [close]) ++ rest)
    (hroom : (replies_bytes (echo ms close)).length ≤ c.fd.room) :
    ∃ c', serve (c.stream.length + 1) c = some c' ∧
      c'.fd.outbox = c.fd.outbox ++ replies_bytes (echo ms close) ∧
      ∀ fd : Wire, fd.inbox = replies_bytes (echo ms close) →
        ∃ fd', client_recvs MAX_PAYLOAD (echo ms close).length fd = ((echo ms close).map some, fd') ∧
          fd'.inbox = [] := by
  obtain ⟨fs, t, hframes, ht, hanswers⟩ := echo_frames ms close hclose rest
  have hsplit : c.stream = frames_bytes fs ++ t := hstream.trans hframes
  have hcount : fs.length ≤ c.stream.length := by
    have hle := frames_length fs
    rw [hsplit, List.length_append]
    omega
  obtain ⟨k, c', hserve, hline⟩ := serve_frames ht fs (c.stream.length + 1) (o := none) hc
    hsplit (by omega)
  rw [hanswers] at hline
  refine ⟨c', hserve, ?_, fun fd hfd => client_reads_echo ms close hfd⟩
  have hout := congrArg Line.outbox hline
  have htake : (replies_bytes (echo ms close)).take c.fd.room = replies_bytes (echo ms close) :=
    List.take_of_length_le hroom
  rw [← htake]
  exact hout

/-- The self-test's fragmented text, with a ping between the fragments. -/
def hello : Message where
  opcode := OP_TEXT
  first := ⟨[], MASK, ascii "Hel", by simp, by decide, mask_four⟩
  more := [
    ⟨[⟨true, OP_PING, MASK, ascii "hi", known_ping, fun _ => ⟨rfl, by decide⟩, by decide, mask_four⟩],
      MASK, ascii "lo, ", by simp, by decide, mask_four⟩,
    ⟨[], MASK, ascii "world", by simp, by decide, mask_four⟩]
  kind := Or.inl rfl
  fits := by decide

/-- Its close frame. -/
def bye : Frame :=
  ⟨true, OP_CLOSE, MASK, [], by decide, fun _ => ⟨rfl, by decide⟩, by decide, mask_four⟩

/-- The connection, with some bytes of it carried over from the handshake. -/
def greeted : Conn :=
  ⟨⟨(frames_bytes (hello.frames ++ [bye])).drop 5, .closed, [.bytes 1, .interrupted, .not_ready], [], 100,
    [.not_ready, .bytes 3]⟩, (frames_bytes (hello.frames ++ [bye])).take 5, 0, [], -1⟩

theorem echo_end_to_end_hello :
    ∃ c', serve (greeted.stream.length + 1) greeted = some c' ∧
      c'.fd.outbox = greeted.fd.outbox ++ replies_bytes (echo [hello] bye) ∧
      ∀ fd : Wire, fd.inbox = replies_bytes (echo [hello] bye) →
        ∃ fd', client_recvs MAX_PAYLOAD (echo [hello] bye).length fd =
          ((echo [hello] bye).map some, fd') ∧ fd'.inbox = [] :=
  echo_end_to_end rfl [hello] bye rfl [] (by decide) (by decide)

example : echo [hello] bye =
    [(OP_PONG, ascii "hi"), (OP_TEXT, ascii "Hello, world"), (OP_CLOSE, [])] := by decide

end CFiber.Ws
