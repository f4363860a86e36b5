/-
  CFiber.Ws.Wire — a connection's socket, as the echo server sees it.

  A `Wire` has the bytes that the peer sends and the answers the kernel gives to the calls: it cuts
  the input where it likes, and a call may be interrupted or find the socket not ready, when the
  fiber waits until it is.  `cfiber_ev_read` and `cfiber_ev_write` are the loops of `read_impl` and
  `write_impl` around their turns.

    • `read_more`, `read_end` — a read returns a piece of the input, or tells how the input ends;
    • `write_spec`            — a write hands over all of its bytes, or those the peer still takes;
    • `exact_spec`            — `conn_read_exact` takes its bytes off the stream, wherever it is cut.
-/
import CFiber.Ev.Transfers

namespace CFiber.Ws

open CFiber.Ev CFiber.Stacks

/-! ## §1. The socket. -/

/-- An answer of the kernel to `read` or `write`. -/
inductive Answer where
  /-- A signal came. -/
  | interrupted
  /-- Nothing to read, or no room: the fiber waits and is woken. -/
  | not_ready
  /-- So many bytes, or as many as there are. -/
  | bytes (k : Nat)
  deriving DecidableEq, Repr

/-- What follows the input's last byte: the peer closed, or the connection (or a wait on it) failed. -/
inductive Ending where
  | closed
  | reset
  deriving DecidableEq, Repr

/-- The socket of a connection.  `outbox` is what the peer was handed, and `room` the number of bytes
    that it still takes before the connection breaks. -/
structure Wire where
  inbox : List UInt8
  ending : Ending
  reads : List Answer
  outbox : List UInt8
  room : Nat
  writes : List Answer
  deriving DecidableEq, Repr

def ECONNRESET : Errno := .other 104

def EPIPE : Errno := .other 32

namespace Wire

/-- `read(fd, buf, n)`. -/
def kernel_read (w : Wire) (n : Nat) : Answer → Except Errno Nat
  | .interrupted => .error .EINTR
  | .not_ready => .error .EAGAIN
  | .bytes k =>
    if w.inbox = [] then
      match w.ending with
      | .closed => .ok 0
      | .reset => .error ECONNRESET
    else .ok (min (max 1 k) (min n w.inbox.length))

/-- `write(fd, buf, n)`. -/
def kernel_write (w : Wire) (n : Nat) : Answer → Except Errno Nat
  | .interrupted => .error .EINTR
  | .not_ready => .error .EAGAIN
  | .bytes k => if w.room = 0 then .error EPIPE else .ok (min (max 1 k) (min n w.room))

/-- The input goes on, in at most `fuel` turns. -/
def read_impl (n : Nat) : (fuel : Nat) → Wire → Int × List UInt8 × Wire
  | 0, w => (-1, [], w)
  | fuel + 1, w =>
    let answer := w.kernel_read n (w.reads.headD (.bytes n))
    let w := { w with reads := w.reads.tail }
    match read_turn answer with
    | .done r => (r, w.inbox.take r, { w with inbox := w.inbox.drop r })
    | .retry | .block => read_impl n fuel w  -- after the wait, which returned READY
    | .fail _ => (-1, [], w)

/-- The bytes from `off` on, in at most `fuel` turns. -/
def write_impl (buf : List UInt8) : (fuel : Nat) → (off : Nat) → Wire → Int × Wire
  | 0, _, w => (-1, w)
  | fuel + 1, off, w =>
    if off < buf.length then
      let answer := w.kernel_write (buf.length - off) (w.writes.headD (.bytes buf.length))
      let took := answer.toOption.getD 0
      let w :=
        { w with
          writes := w.writes.tail
          outbox := w.outbox ++ (buf.drop off).take took
          room := w.room - took }
      match write_turn buf.length off answer with
      | (.done n, _) => (n, w)
      | (.retry, off) | (.block, off) => write_impl buf fuel off w
      | (.fail _, _) => (-1, w)
    else (off, w)

end Wire

/-- What is returned, the bytes in the buffer, and the socket. -/
def cfiber_ev_read (fd : Wire) (n : Nat) : Int × List UInt8 × Wire :=
  fd.read_impl n (fd.reads.length + 1)

def cfiber_ev_write (fd : Wire) (buf : List UInt8) : Int × Wire :=
  fd.write_impl buf (fd.writes.length + buf.length + 1) 0

/-! ## §2. The connection. -/

/-- `conn_t`; `carry` has the `carry_len` bytes of its buffer, and `msg` the `msg_len` bytes. -/
structure Conn where
  fd : Wire
  carry : List UInt8
  carry_off : Nat
  msg : List UInt8
  msg_op : Int
  deriving DecidableEq, Repr

/-- `while (off < n)`, in at most `fuel` turns; `off` is the number of bytes in `buf`. -/
def read_rest (n : Nat) : (fuel : Nat) → List UInt8 → Conn → Int × List UInt8 × Conn
  | 0, buf, c => (1, buf, c)
  | fuel + 1, buf, c =>
    if buf.length < n then
      let (r, bytes, fd) := cfiber_ev_read c.fd (n - buf.length)
      let c := { c with fd := fd }
      if r = 0 then (0, buf, c)
      else if r < 0 then (-1, buf, c)
      else read_rest n fuel (buf ++ bytes) c
    else (1, buf, c)

/-- What is returned, the bytes in the buffer, and the connection. -/
def conn_read_exact (c : Conn) (n : Nat) : Int × List UInt8 × Conn :=
  if c.carry_off < c.carry.length then
    let take := min (c.carry.length - c.carry_off) n
    read_rest n n ((c.carry.drop c.carry_off).take take) { c with carry_off := c.carry_off + take }
  else read_rest n n [] c

/-! ## §3. The stream. -/

/-- The connection as the peer knows it: what is still to be read, how that ends, what was handed
    over, and how much more will be. -/
@[ext]
structure Line where
  input : List UInt8
  ending : Ending
  outbox : List UInt8
  room : Nat
  deriving DecidableEq, Repr

/-- The first bytes are read. -/
def Line.skip (l : Line) (n : Nat) : Line := { l with input := l.input.drop n }

/-- Bytes are written, as far as there is room. -/
def Line.send (l : Line) (bytes : List UInt8) : Line :=
  { l with outbox := l.outbox ++ bytes.take l.room, room := l.room - bytes.length }

def Wire.line (w : Wire) : Line := ⟨w.inbox, w.ending, w.outbox, w.room⟩

/-- Carried bytes come first. -/
def Conn.line (c : Conn) : Line :=
  { c.fd.line with input := c.carry.drop c.carry_off ++ c.fd.line.input }

/-- What a call returns at the end of the input. -/
def Ending.code : Ending → Int
  | .closed => 0
  | .reset => -1

theorem Ending.code_le (e : Ending) : e.code ≤ 0 := by
  cases e <;> decide

/-! ## §4. Reading. -/

namespace Wire

variable {n : Nat}

/-- The turn that reads. -/
theorem kernel_read_bytes {w : Wire} (h : w.inbox ≠ []) (hn : 0 < n) (k : Nat) :
    ∃ r, 0 < r ∧ r ≤ n ∧ r ≤ w.inbox.length ∧ w.kernel_read n (.bytes k) = .ok r := by
  have hpos := List.length_pos_of_ne_nil h
  exact ⟨_, by omega, by omega, by omega, if_neg h⟩

/-- A turn, by its answer. -/
theorem read_impl_turn {w : Wire} {a : Answer} {reads : List Answer} {fuel : Nat}
    (hw : w.reads = a :: reads) :
    w.read_impl n (fuel + 1) =
      match read_turn (w.kernel_read n a) with
      | .done r => (r, w.inbox.take r, { w with inbox := w.inbox.drop r, reads := reads })
      | .retry | .block => { w with reads := reads }.read_impl n fuel
      | .fail _ => (-1, [], { w with reads := reads }) := by
  rw [read_impl, hw]
  rfl

/-- A turn that reads nothing. -/
theorem read_impl_wait {w : Wire} {a : Answer} {reads : List Answer} (fuel : Nat)
    (hw : w.reads = a :: reads) (ha : a = .interrupted ∨ a = .not_ready) :
    w.read_impl n (fuel + 1) = { w with reads := reads }.read_impl n fuel := by
  rw [read_impl_turn hw]
  rcases ha with rfl | rfl
  · rfl
  · rfl

/-- **A read before the end**, by induction on its turns. -/
theorem read_impl_more (hn : 0 < n) (fuel : Nat) :
    ∀ w : Wire, w.inbox ≠ [] → w.reads.length < fuel →
      ∃ r reads, 0 < r ∧ r ≤ n ∧ r ≤ w.inbox.length ∧ w.read_impl n fuel =
        ((r : Int), w.inbox.take r, { w with inbox := w.inbox.drop r, reads := reads }) := by
  induction fuel with
  | zero => exact fun w _ h => absurd h (Nat.not_lt_zero _)
  | succ fuel ih =>
      intro w hne hfuel
      have hbytes (k : Nat) (hk : w.reads.headD (.bytes n) = .bytes k) :
          ∃ r reads, 0 < r ∧ r ≤ n ∧ r ≤ w.inbox.length ∧ w.read_impl n (fuel + 1) =
            ((r : Int), w.inbox.take r, { w with inbox := w.inbox.drop r, reads := reads }) := by
        obtain ⟨r, hpos, hle, hlen, hr⟩ := kernel_read_bytes hne hn k
        refine ⟨r, w.reads.tail, hpos, hle, hlen, ?_⟩
        rw [read_impl, hk, hr]
        rfl
      match hreads : w.reads with
      | [] => exact hbytes n (by rw [hreads]; rfl)
      | .bytes k :: reads => exact hbytes k (by rw [hreads]; rfl)
      | .interrupted :: reads | .not_ready :: reads =>
          rw [hreads, List.length_cons] at hfuel
          rw [read_impl_wait fuel hreads (by simp)]
          exact ih { w with reads := reads } hne (by show reads.length < fuel; omega)

/-- **A read at the end.** -/
theorem read_impl_end (fuel : Nat) :
    ∀ w : Wire, w.inbox = [] → w.reads.length < fuel →
      ∃ reads, w.read_impl n fuel = (w.ending.code, [], { w with reads := reads }) := by
  induction fuel with
  | zero => exact fun w _ h => absurd h (Nat.not_lt_zero _)
  | succ fuel ih =>
      intro w hnil hfuel
      have hbytes (k : Nat) (hk : w.reads.headD (.bytes n) = .bytes k) :
          ∃ reads, w.read_impl n (fuel + 1) = (w.ending.code, [], { w with reads := reads }) := by
        refine ⟨w.reads.tail, ?_⟩
        rw [read_impl, hk, kernel_read, if_pos hnil]
        cases w.ending with
        | closed => simp [read_turn, hnil, Ending.code]
        | reset => simp [read_turn, ECONNRESET, Ending.code]
      match hreads : w.reads with
      | [] => exact hbytes n (by rw [hreads]; rfl)
      | .bytes k :: reads => exact hbytes k (by rw [hreads]; rfl)
      | .interrupted :: reads | .not_ready :: reads =>
          rw [hreads, List.length_cons] at hfuel
          rw [read_impl_wait fuel hreads (by simp)]
          exact ih { w with reads := reads } hnil (by show reads.length < fuel; omega)

/-! ## §5. Writing. -/

theorem kernel_write_bytes {w : Wire} (h : w.room ≠ 0) (hn : 0 < n) (k : Nat) :
    ∃ r, 0 < r ∧ r ≤ n ∧ r ≤ w.room ∧ w.kernel_write n (.bytes k) = .ok r :=
  ⟨_, by omega, by omega, by omega, if_neg h⟩

theorem write_turn_ok {off r : Nat} (hr : 0 < r) :
    write_turn n off (.ok r) = (if off + r < n then .retry else .done (off + r), off + r) := by
  obtain ⟨r, rfl⟩ := Nat.exists_eq_succ_of_ne_zero (Nat.pos_iff_ne_zero.mp hr)
  rfl

/-- What `w` is when it has taken `r` bytes from `off` on. -/
def took (w : Wire) (buf : List UInt8) (off r : Nat) : Wire :=
  { w with
    writes := w.writes.tail
    outbox := w.outbox ++ (buf.drop off).take r
    room := w.room - r }

/-- A turn, by its answer. -/
theorem write_impl_turn {w : Wire} {buf : List UInt8} {off fuel : Nat} {a : Answer}
    {writes : List Answer} (hlt : off < buf.length) (hw : w.writes = a :: writes) :
    w.write_impl buf (fuel + 1) off =
      match write_turn buf.length off (w.kernel_write (buf.length - off) a) with
      | (.done n, _) => (n, w.took buf off ((w.kernel_write (buf.length - off) a).toOption.getD 0))
      | (.retry, off') | (.block, off') =>
        (w.took buf off ((w.kernel_write (buf.length - off) a).toOption.getD 0)).write_impl buf fuel off'
      | (.fail _, _) =>
        (-1, w.took buf off ((w.kernel_write (buf.length - off) a).toOption.getD 0)) := by
  have hhead : w.writes.headD (.bytes buf.length) = a := by rw [hw]; rfl
  rw [write_impl, if_pos hlt, hhead]
  rfl

/-- What `w` is when the bytes from `off` on have been written, or as many as it takes. -/
def written (w : Wire) (buf : List UInt8) (off : Nat) (writes : List Answer) : Wire :=
  { w with
    outbox := w.outbox ++ (buf.drop off).take w.room
    room := w.room - (buf.length - off)
    writes := writes }

/-- The bytes of a turn and those after it are the bytes of the whole. -/
theorem took_written {w : Wire} {buf : List UInt8} {off r : Nat} (hr : off + r ≤ buf.length)
    (hroom : r ≤ w.room) (writes : List Answer) :
    (w.took buf off r).written buf (off + r) writes = w.written buf off writes := by
  have hbytes : (buf.drop off).take r ++ (buf.drop (off + r)).take (w.room - r) =
      (buf.drop off).take w.room := by
    rw [← List.drop_drop, ← List.take_add]
    congr 1
    omega
  unfold written took
  dsimp only
  rw [List.append_assoc, hbytes]
  congr 1
  omega

/-- A turn that takes `r` bytes. -/
theorem write_impl_took {w : Wire} {buf : List UInt8} {off k r fuel : Nat} (hlt : off < buf.length)
    (hk : w.writes.headD (.bytes buf.length) = .bytes k)
    (hr : w.kernel_write (buf.length - off) (.bytes k) = .ok r) (hpos : 0 < r) :
    w.write_impl buf (fuel + 1) off =
      if off + r < buf.length then (w.took buf off r).write_impl buf fuel (off + r)
      else (((off + r : Nat) : Int), w.took buf off r) := by
  rw [write_impl, if_pos hlt, hk, hr]
  dsimp only
  rw [write_turn_ok hpos]
  split_ifs <;> rfl

/-- A turn that waits. -/
theorem write_impl_wait {w : Wire} {buf : List UInt8} {off fuel : Nat} {a : Answer}
    {writes : List Answer} (hlt : off < buf.length) (hw : w.writes = a :: writes)
    (ha : a = .interrupted ∨ a = .not_ready) :
    w.write_impl buf (fuel + 1) off = { w with writes := writes }.write_impl buf fuel off := by
  rw [write_impl, if_pos hlt, hw]
  rcases ha with rfl | rfl <;> simp [kernel_write, write_turn, Except.toOption]

/-- **A write**, by induction on its turns. -/
theorem write_impl_spec (buf : List UInt8) (fuel : Nat) :
    ∀ (off : Nat) (w : Wire), off ≤ buf.length → w.writes.length + (buf.length - off) < fuel →
      ∃ writes, w.write_impl buf fuel off =
        (if buf.length - off ≤ w.room then (buf.length : Int) else -1, w.written buf off writes) := by
  induction fuel with
  | zero => exact fun off w _ h => absurd h (Nat.not_lt_zero _)
  | succ fuel ih =>
      intro off w hoff hfuel
      by_cases hlt : off < buf.length
      · have hbytes (k : Nat) (hk : w.writes.headD (.bytes buf.length) = .bytes k) :
            ∃ writes, w.write_impl buf (fuel + 1) off =
              (if buf.length - off ≤ w.room then (buf.length : Int) else -1,
                w.written buf off writes) := by
          by_cases hroom : w.room = 0
          · -- the connection breaks
            have hfail : w.kernel_write (buf.length - off) (.bytes k) = .error EPIPE := if_pos hroom
            refine ⟨w.writes.tail, ?_⟩
            rw [write_impl, if_pos hlt, hk, hfail, if_neg (by omega), written]
            simp [write_turn, EPIPE, Except.toOption, hroom]
          · obtain ⟨r, hpos, hle, hr, hok⟩ :=
              kernel_write_bytes hroom (show 0 < buf.length - off by omega) k
            have hmore : (w.took buf off r).writes.length + (buf.length - (off + r)) < fuel := by
              show w.writes.tail.length + (buf.length - (off + r)) < fuel
              rw [List.length_tail]
              omega
            have hfit : buf.length - (off + r) ≤ (w.took buf off r).room ↔
                buf.length - off ≤ w.room := by
              show buf.length - (off + r) ≤ w.room - r ↔ buf.length - off ≤ w.room
              omega
            rw [write_impl_took hlt hk hok hpos]
            split_ifs with hlast hall hall
            · obtain ⟨writes, hrest⟩ := ih (off + r) (w.took buf off r) (by omega) hmore
              rw [if_pos (hfit.mpr hall), took_written (by omega) hr] at hrest
              exact ⟨writes, hrest⟩
            · obtain ⟨writes, hrest⟩ := ih (off + r) (w.took buf off r) (by omega) hmore
              rw [if_neg (fun h => hall (hfit.mp h)), took_written (by omega) hr] at hrest
              exact ⟨writes, hrest⟩
            · have hend : off + r = buf.length := by omega
              refine ⟨w.writes.tail, ?_⟩
              rw [← took_written (by omega) hr, hend, written]
              simp [took]
            · omega
        match hwrites : w.writes with
        | [] => exact hbytes buf.length (by rw [hwrites]; rfl)
        | .bytes k :: writes => exact hbytes k (by rw [hwrites]; rfl)
        | .interrupted :: writes =>
            rw [hwrites, List.length_cons] at hfuel
            rw [write_impl_wait hlt hwrites (Or.inl rfl)]
            exact ih off { w with writes := writes } hoff (by show writes.length + _ < fuel; omega)
        | .not_ready :: writes =>
            rw [hwrites, List.length_cons] at hfuel
            rw [write_impl_wait hlt hwrites (Or.inr rfl)]
            exact ih off { w with writes := writes } hoff (by show writes.length + _ < fuel; omega)
      · -- all of it is written
        obtain rfl : off = buf.length := by omega
        refine ⟨w.writes, ?_⟩
        rw [write_impl, if_neg hlt, if_pos (by omega), written]
        simp

end Wire

/-! ## §6. The helpers. -/

/-- What is left when some bytes are taken. -/
theorem inbox_behind {fd fd' : Wire} {bytes rest : List UInt8} (h : fd.inbox = bytes ++ rest)
    (hline : fd'.line = fd.line.skip bytes.length) : fd'.inbox = rest := by
  have hskip : fd'.inbox = fd.inbox.drop bytes.length := congrArg Line.input hline
  rw [hskip, h, List.drop_left]

/-- **`cfiber_ev_read` before the end** returns a piece of the input. -/
theorem read_more {fd : Wire} {n : Nat} (hn : 0 < n) (h : fd.inbox ≠ []) :
    ∃ (r : Nat) (fd' : Wire), 0 < r ∧ r ≤ n ∧ r ≤ fd.inbox.length ∧
      cfiber_ev_read fd n = ((r : Int), fd.inbox.take r, fd') ∧ fd'.line = fd.line.skip r := by
  obtain ⟨r, reads, hpos, hle, hlen, hr⟩ :=
    Wire.read_impl_more hn (fd.reads.length + 1) fd h (Nat.lt_succ_self _)
  exact ⟨r, _, hpos, hle, hlen, hr, rfl⟩

/-- **`cfiber_ev_read` at the end** tells how the input ends. -/
theorem read_end {fd : Wire} (n : Nat) (h : fd.inbox = []) :
    ∃ fd', cfiber_ev_read fd n = (fd.ending.code, [], fd') ∧ fd'.line = fd.line := by
  obtain ⟨reads, hr⟩ := Wire.read_impl_end (n := n) (fd.reads.length + 1) fd h (Nat.lt_succ_self _)
  exact ⟨_, hr, rfl⟩

/-- **`cfiber_ev_write`** hands over all of the bytes, or as many as the peer still takes. -/
theorem write_spec (fd : Wire) (buf : List UInt8) :
    ∃ fd', cfiber_ev_write fd buf = (if buf.length ≤ fd.room then (buf.length : Int) else -1, fd') ∧
      fd'.line = fd.line.send buf := by
  obtain ⟨writes, h⟩ := Wire.write_impl_spec buf (fd.writes.length + buf.length + 1) 0 fd
    (Nat.zero_le _) (by omega)
  exact ⟨_, h, rfl⟩

/-! ## §7. Reading exactly. -/

/-- The bytes still to be read, those carried first. -/
def Conn.stream (c : Conn) : List UInt8 := c.line.input

/-- Reading has left the rest of the connection as it was. -/
structure Kept (c c' : Conn) : Prop where
  carry : c'.carry = c.carry
  msg : c'.msg = c.msg
  msg_op : c'.msg_op = c.msg_op

theorem Kept.refl (c : Conn) : Kept c c := ⟨rfl, rfl, rfl⟩

theorem Kept.trans {c c' c'' : Conn} (h : Kept c c') (h' : Kept c' c'') : Kept c c'' :=
  ⟨h'.carry.trans h.carry, h'.msg.trans h.msg, h'.msg_op.trans h.msg_op⟩

/-- What reading `n` bytes behind those in `buf` returns. -/
structure Exact (buf : List UInt8) (c : Conn) (n : Nat) (res : Int × List UInt8 × Conn) : Prop where
  kept : Kept c res.2.2
  line : res.2.2.line = c.line.skip n
  got : n ≤ c.stream.length → res.1 = 1 ∧ res.2.1 = buf ++ c.stream.take n
  short : c.stream.length < n → res.1 = c.fd.ending.code

theorem Line.skip_skip (l : Line) (m n : Nat) : (l.skip m).skip n = l.skip (m + n) := by
  simp only [Line.skip, List.drop_drop]

theorem Exact.none (buf : List UInt8) (c : Conn) : Exact buf c 0 (1, buf, c) :=
  ⟨.refl c, rfl, fun _ => ⟨rfl, by simp⟩, fun h => absurd h (Nat.not_lt_zero _)⟩

/-- Bytes read first, and then the others. -/
theorem Exact.after {buf : List UInt8} {c c' : Conn} {r n : Nat} {res : Int × List UInt8 × Conn}
    (hkept : Kept c c') (hline : c'.line = c.line.skip r) (hlen : r ≤ c.stream.length)
    (h : Exact (buf ++ c.stream.take r) c' n res) : Exact buf c (r + n) res := by
  have hstream : c'.stream = c.stream.drop r := congrArg Line.input hline
  have hending : c'.fd.ending = c.fd.ending := congrArg Line.ending hline
  have hdrop : c'.stream.length = c.stream.length - r := by rw [hstream, List.length_drop]
  refine ⟨hkept.trans h.kept, ?_, fun hn => ?_,
    fun hn => ?_⟩
  · rw [h.line, hline, Line.skip_skip]
  · obtain ⟨hrc, hbuf⟩ := h.got (by omega)
    refine ⟨hrc, ?_⟩
    rw [hbuf, hstream, List.append_assoc, List.take_add]
  · rw [h.short (by omega), hending]

/-- Behind the carried bytes the connection is its socket. -/
theorem line_fd {c : Conn} (hc : c.carry.length ≤ c.carry_off) : c.line = c.fd.line := by
  rw [Conn.line, List.drop_eq_nil_of_le hc]
  rfl

/-- One turn at the end of the input. -/
theorem read_rest_end (fuel : Nat) {n : Nat} {buf : List UInt8} {c : Conn}
    (hc : c.carry.length ≤ c.carry_off) (hlt : buf.length < n) (hnil : c.fd.inbox = []) :
    ∃ c', read_rest n (fuel + 1) buf c = (c.fd.ending.code, buf, c') ∧ Kept c c' ∧
      c'.line = c.line := by
  obtain ⟨fd', hread, hline⟩ := read_end (n - buf.length) hnil
  refine ⟨{ c with fd := fd' }, ?_, ⟨rfl, rfl, rfl⟩, ?_⟩
  · rw [read_rest, if_pos hlt, hread]
    cases c.fd.ending <;> simp [Ending.code]
  · rw [line_fd (c := { c with fd := fd' }) hc, line_fd hc]
    exact hline

/-- One turn before it. -/
theorem read_rest_more (fuel : Nat) {n : Nat} {buf : List UInt8} {c : Conn}
    (hc : c.carry.length ≤ c.carry_off) (hlt : buf.length < n) (hne : c.fd.inbox ≠ []) :
    ∃ r c', 0 < r ∧ r ≤ n - buf.length ∧ r ≤ c.stream.length ∧
      read_rest n (fuel + 1) buf c = read_rest n fuel (buf ++ c.stream.take r) c' ∧ Kept c c' ∧
      c'.line = c.line.skip r ∧ c'.carry.length ≤ c'.carry_off := by
  obtain ⟨r, fd', hpos, hle, hlen, hread, hline⟩ := read_more (show 0 < n - buf.length by omega) hne
  have hstream : c.stream = c.fd.inbox := congrArg Line.input (line_fd hc)
  refine ⟨r, { c with fd := fd' }, hpos, hle, by rw [hstream]; exact hlen, ?_, ⟨rfl, rfl, rfl⟩, ?_, hc⟩
  · rw [read_rest, if_pos hlt, hread, hstream]
    dsimp only
    rw [if_neg (by omega), if_neg (by omega)]
  · rw [line_fd (c := { c with fd := fd' }) hc, line_fd hc]
    exact hline

/-- **The loop behind the carried bytes**, by induction on its turns. -/
theorem read_rest_spec (n fuel : Nat) :
    ∀ (buf : List UInt8) (c : Conn), c.carry.length ≤ c.carry_off → buf.length ≤ n →
      n - buf.length ≤ fuel → Exact buf c (n - buf.length) (read_rest n fuel buf c) := by
  induction fuel with
  | zero =>
      intro buf c _ _ hfuel
      rw [Nat.le_zero.mp hfuel]
      exact Exact.none buf c
  | succ fuel ih =>
      intro buf c hc hbuf hfuel
      by_cases hlt : buf.length < n
      · by_cases hnil : c.fd.inbox = []
        · obtain ⟨c', hturn, hkept, hline⟩ := read_rest_end fuel hc hlt hnil
          have hempty : c.stream = [] := (congrArg Line.input (line_fd hc)).trans hnil
          rw [hturn]
          refine ⟨hkept, hline.trans ?_, fun h => ?_, fun _ => rfl⟩
          · show c.line = { c.line with input := c.stream.drop (n - buf.length) }
            rw [hempty, List.drop_nil, ← hempty]
            rfl
          · rw [hempty, List.length_nil] at h
            omega
        · obtain ⟨r, c', hpos, hle, hlen, hturn, hkept, hline, hc'⟩ :=
            read_rest_more fuel hc hlt hnil
          have htake : (buf ++ c.stream.take r).length = buf.length + r := by
            rw [List.length_append, List.length_take, Nat.min_eq_left hlen]
          have hrest := ih (buf ++ c.stream.take r) c' hc' (by omega) (by omega)
          rw [hturn, show n - buf.length = r + (n - (buf ++ c.stream.take r).length) by omega]
          exact hrest.after hkept hline hlen
      · rw [read_rest, if_neg hlt, show n - buf.length = 0 by omega]
        exact Exact.none buf c

/-- Nothing is missing. -/
theorem read_rest_full {n : Nat} {buf : List UInt8} (h : n ≤ buf.length) (fuel : Nat) (c : Conn) :
    read_rest n fuel buf c = (1, buf, c) := by
  cases fuel with
  | zero => rfl
  | succ fuel => exact if_neg (by omega)

/-- The bytes taken off the carry buffer. -/
theorem carry_taken {c : Conn} {k : Nat} (hk : k ≤ c.carry.length - c.carry_off) :
    { c with carry_off := c.carry_off + k }.line = c.line.skip k ∧
      c.stream.take k = (c.carry.drop c.carry_off).take k := by
  have hrest : k ≤ (c.carry.drop c.carry_off).length := by rw [List.length_drop]; exact hk
  constructor
  · show Line.mk (c.carry.drop (c.carry_off + k) ++ c.fd.inbox) _ _ _ =
      Line.mk ((c.carry.drop c.carry_off ++ c.fd.inbox).drop k) _ _ _
    rw [List.drop_append_of_le_length hrest, List.drop_drop]
    rfl
  · exact List.take_append_of_le_length hrest

/-- **`conn_read_exact`** takes its bytes off the stream: what the carry buffer has of them, and what
    the kernel gives a call, does not show. -/
theorem exact_spec (c : Conn) (n : Nat) : Exact [] c n (conn_read_exact c n) := by
  unfold conn_read_exact
  split_ifs with hcarry
  · obtain ⟨k, hk⟩ : ∃ k, k = min (c.carry.length - c.carry_off) n := ⟨_, rfl⟩
    obtain ⟨hline, htake⟩ := carry_taken (c := c) (k := k) (by omega)
    have hlen : k ≤ c.stream.length := by
      show k ≤ (c.carry.drop c.carry_off ++ c.fd.inbox).length
      rw [List.length_append, List.length_drop]
      omega
    have hgot : (c.stream.take k).length = k := by
      rw [List.length_take, Nat.min_eq_left hlen]
    dsimp only
    rw [← hk, ← htake]
    have hrest : Exact ([] ++ c.stream.take k) { c with carry_off := c.carry_off + k } (n - k)
        (read_rest n n (c.stream.take k) { c with carry_off := c.carry_off + k }) := by
      by_cases hall : n ≤ k
      · rw [read_rest_full (by omega), show n - k = 0 by omega]
        exact Exact.none _ _
      · have hspec := read_rest_spec n n (c.stream.take k) { c with carry_off := c.carry_off + k }
          (by show c.carry.length ≤ c.carry_off + k; omega) (by omega) (by omega)
        rwa [hgot] at hspec
    have hkept : Kept c { c with carry_off := c.carry_off + k } := ⟨rfl, rfl, rfl⟩
    have hwhole := hrest.after hkept hline hlen
    rwa [show k + (n - k) = n by omega] at hwhole
  · exact read_rest_spec n n [] c (by omega) (Nat.zero_le n) (Nat.le_refl _)

end CFiber.Ws
