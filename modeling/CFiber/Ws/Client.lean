/-
  CFiber.Ws.Client — the client of the self-test (`examples/ws_echo/ws_selftest.c`).

  The client's framing mirrors the server's: it masks what it sends and refuses masked frames.  Its
  reads are bounded by a deadline; a read that runs out of time is one that fails.

    • `client_recv_frames`     — what the server sends, the client takes apart into the same frames;
    • `client_recv_close_spec` — the code with which the server closes is the one the client reads;
    • `client_send_frame_spec` — what the client sends, the server takes apart into the same frame.
-/
import CFiber.Ws.Session

namespace CFiber.Ws

open CFiber.Base

/-! ## §1. The code. -/

/-- `for (size_t off = 0; off < n;)`, in at most `fuel` turns. -/
def read_exact_from (n : Nat) : (fuel : Nat) → List UInt8 → Wire → Int × List UInt8 × Wire
  | 0, buf, fd => (0, buf, fd)
  | fuel + 1, buf, fd =>
    if buf.length < n then
      let (r, bytes, fd) := cfiber_ev_read fd (n - buf.length)
      if r ≤ 0 then (-1, buf, fd) else read_exact_from n fuel (buf ++ bytes) fd
    else (0, buf, fd)

/-- What is returned, the bytes in the buffer, and the socket. -/
def read_exact (fd : Wire) (n : Nat) : Int × List UInt8 × Wire := read_exact_from n n [] fd

/-- Build a client frame header.  Lengths up to 65535. -/
def build_header (fin : Bool) (rsv opcode : UInt8) (masked : Bool) (len : Nat) : List UInt8 :=
  let m : UInt8 := if masked then 0x80 else 0
  let b : UInt8 := (if fin then 0x80 else 0) ||| rsv &&& 0x70 ||| opcode
  if len < 126 then [b, UInt8.ofNat (m.toNat ||| len)]
  else [b, m ||| 126, UInt8.ofNat (len >>> 8), UInt8.ofNat len]

def MASK : List UInt8 := [0x12, 0x34, 0x56, 0x78]

/-- Serialise a masked frame. -/
def build_frame (fin : Bool) (opcode : UInt8) (p : List UInt8) : List UInt8 :=
  build_header fin 0 opcode true p.length ++ MASK ++ p.mapIdx fun i b => b ^^^ MASK.getD (i &&& 3) 0

/-- A masked frame, in its buffer of 512. -/
def client_send_frame (fd : Wire) (fin : Bool) (opcode : UInt8) (p : List UInt8) : Int × Wire :=
  if p.length + 8 > 512 then (-1, fd)
  else
    let (r, fd) := cfiber_ev_write fd (build_frame fin opcode p)
    (if r < 0 then -1 else 0, fd)

/-- The length of a server frame; `n` has seven bits of it. -/
def client_recv_len (fd : Wire) (n : UInt8) : Option UInt64 × Wire :=
  if n = 126 then
    let (rc, e, fd) := read_exact fd 2
    if rc < 0 then (none, fd)
    else (some ((e.getD 0 0).toUInt64 <<< 8 ||| (e.getD 1 0).toUInt64), fd)
  else if n = 127 then
    let (rc, e, fd) := read_exact fd 8
    if rc < 0 then (none, fd)
    else (some (e.foldl (fun (n : UInt64) b => n <<< 8 ||| b.toUInt64) 0), fd)
  else (some n.toUInt64, fd)

/-- The opcode and the payload, or nothing where -1 is returned. -/
def client_recv (fd : Wire) (cap : Nat) : Option (UInt8 × List UInt8) × Wire :=
  let (rc, b, fd) := read_exact fd 2
  if rc < 0 then (none, fd)
  else
    let opcode := b.getD 0 0 &&& 0x0F
    if b.getD 1 0 &&& 0x80 ≠ 0 then (none, fd)  -- the server must not mask
    else
      match client_recv_len fd (b.getD 1 0 &&& 0x7F) with
      | (none, fd) => (none, fd)
      | (some n, fd) =>
        if n.toNat > cap then (none, fd)
        else
          let (rc, p, fd) := if n ≠ 0 then read_exact fd n.toNat else (0, [], fd)
          if rc < 0 then (none, fd) else (some (opcode, p), fd)

/-- Reads a close frame and returns its status code, or -1. -/
def client_recv_close (fd : Wire) : Int × Wire :=
  match client_recv fd 125 with
  | (none, fd) => (-1, fd)
  | (some (op, body), fd) =>
    if op ≠ 0x8 ∨ body.length < 2 then (-1, fd)
    else (((body.getD 0 0).toNat <<< 8 ||| (body.getD 1 0).toNat : Nat), fd)

/-! ## §2. Reading. -/

/-- The client's loop is the server's, behind an empty carry buffer. -/
theorem read_exact_rest (n fuel : Nat) : ∀ (buf : List UInt8) (fd : Wire),
    read_exact_from n fuel buf fd =
      let (r, bytes, c) := read_rest n fuel buf ⟨fd, [], 0, [], -1⟩
      (if r = 1 then 0 else -1, bytes, c.fd) := by
  induction fuel with
  | zero => exact fun buf fd => rfl
  | succ fuel ih =>
      intro buf fd
      rw [read_exact_from, read_rest]
      by_cases hlt : buf.length < n
      · rw [if_pos hlt, if_pos hlt]
        generalize cfiber_ev_read fd (n - buf.length) = res
        obtain ⟨r, bytes, fd'⟩ := res
        dsimp only
        by_cases hzero : r = 0
        · rw [if_pos (by omega), if_pos hzero]
          rfl
        · by_cases hneg : r < 0
          · rw [if_pos (by omega), if_neg hzero, if_pos hneg]
            rfl
          · rw [if_neg (by omega), if_neg hzero, if_neg hneg]
            exact ih (buf ++ bytes) fd'
      · rw [if_neg hlt, if_neg hlt]
        rfl

/-- The bytes are there. -/
theorem read_exact_got (fd : Wire) {n : Nat} (h : n ≤ fd.inbox.length) :
    ∃ fd', read_exact fd n = (0, fd.inbox.take n, fd') ∧ fd'.line = fd.line.skip n := by
  have hspec := exact_spec ⟨fd, [], 0, [], -1⟩ n
  obtain ⟨hrc, hbuf⟩ := hspec.got h
  obtain ⟨c', hc'⟩ : ∃ c', c' = (conn_read_exact ⟨fd, [], 0, [], -1⟩ n).2.2 := ⟨_, rfl⟩
  have hread : read_rest n n [] ⟨fd, [], 0, [], -1⟩ = (1, fd.inbox.take n, c') := by
    show conn_read_exact ⟨fd, [], 0, [], -1⟩ n = _
    rw [hc']
    exact Prod.ext hrc (Prod.ext hbuf rfl)
  have hline : c'.fd.line = fd.line.skip n := by
    have hcarry : c'.carry = [] := by rw [hc']; exact hspec.kept.carry
    have hwhole := hspec.line
    rw [← hc', Conn.line, hcarry, List.drop_nil] at hwhole
    exact hwhole
  refine ⟨c'.fd, ?_, hline⟩
  rw [read_exact, read_exact_rest, hread]
  rfl

/-! ## §3. Server frames. -/

/-- The length comes back from its bytes. -/
theorem client_recv_len_spec {fd : Wire} {n : Nat} {rest : List UInt8} (hn : n < 2 ^ 63)
    (h : fd.inbox = len_ext n ++ rest) :
    ∃ m fd', client_recv_len fd (len7 n) = (some m, fd') ∧ m.toNat = n ∧
      fd'.line = fd.line.skip (len_ext n).length := by
  unfold client_recv_len
  by_cases hsmall : n < 126
  · obtain ⟨hval, h126, h127, hext⟩ := len7_small hsmall
    rw [if_neg h126, if_neg h127, hext]
    exact ⟨_, fd, rfl, by rw [UInt8.toNat_toUInt64, hval], rfl⟩
  by_cases hmid : n ≤ 0xFFFF
  · obtain ⟨h7, hext⟩ := len7_mid hsmall hmid
    have htake : fd.inbox.take 2 = be 2 n := by
      rw [h, hext]
      exact List.take_left' (be_length 2 n)
    obtain ⟨fd', hread, hline⟩ := read_exact_got fd (n := 2) (by
      rw [h, hext, List.length_append, be_length]
      omega)
    refine ⟨((be 2 n).getD 0 0).toUInt64 <<< 8 ||| ((be 2 n).getD 1 0).toUInt64, fd', ?_, ?_,
      by rw [hext, be_length]; exact hline⟩
    · rw [h7, if_pos rfl, hread, htake]
      exact if_neg (by decide)
    · rw [toNat_len_two (be_length 2 n)]
      exact of_be_be (by omega)
  · obtain ⟨h7, hext⟩ := len7_large hmid
    have htake : fd.inbox.take 8 = be 8 n := by
      rw [h, hext]
      exact List.take_left' (be_length 8 n)
    obtain ⟨fd', hread, hline⟩ := read_exact_got fd (n := 8) (by
      rw [h, hext, List.length_append, be_length]
      omega)
    refine ⟨(be 8 n).foldl (fun (n : UInt64) b => n <<< 8 ||| b.toUInt64) 0, fd', ?_, ?_,
      by rw [hext, be_length]; exact hline⟩
    · rw [h7, if_neg (by decide), if_pos rfl, hread, htake]
      exact if_neg (by decide)
    · rw [toNat_len _ (by rw [be_length])]
      exact of_be_be (by omega)

/-- The payload's bytes are there; no call is made for an empty one. -/
theorem client_payload (fd : Wire) {m : UInt64} (h : m.toNat ≤ fd.inbox.length) :
    ∃ fd', (if m ≠ 0 then read_exact fd m.toNat else (0, [], fd)) = (0, fd.inbox.take m.toNat, fd') ∧
      fd'.line = fd.line.skip m.toNat := by
  by_cases hm : m = 0
  · subst hm
    exact ⟨fd, rfl, rfl⟩
  · rw [if_pos hm]
    exact read_exact_got fd h

/-- **One server frame**, taken apart again. -/
theorem client_recv_server {fd : Wire} {opcode : UInt8} {payload rest : List UInt8} {cap : Nat}
    (hop : Known opcode) (hcap : payload.length ≤ cap) (hlen : payload.length < 2 ^ 63)
    (h : fd.inbox = server_bytes opcode payload ++ rest) :
    ∃ fd', client_recv fd cap = (some (opcode, payload), fd') ∧
      fd'.line = fd.line.skip (server_bytes opcode payload).length := by
  obtain ⟨-, hopcode, -⟩ := first_byte true opcode hop
  obtain ⟨-, -, hmask, hseven⟩ := second_byte (len7 payload.length) (len7_lt _)
  rw [if_pos rfl] at hopcode
  have hbytes : fd.inbox = (0x80 ||| opcode) :: (0 ||| len7 payload.length) ::
      (len_ext payload.length ++ (payload ++ rest)) := by
    rw [h, server_bytes, head, if_pos rfl, ← List.append_assoc]
    rfl
  -- the first two bytes
  obtain ⟨fd₁, hread₁, hline₁⟩ := read_exact_got fd (n := 2) (by rw [hbytes]; simp)
  rw [hbytes] at hread₁
  have hinbox₁ : fd₁.inbox = len_ext payload.length ++ (payload ++ rest) := by
    have hskip : fd₁.inbox = fd.inbox.drop 2 := congrArg Line.input hline₁
    rw [hskip, hbytes]
    rfl
  -- the extended length
  obtain ⟨m, fd₂, hread₂, hm, hline₂⟩ := client_recv_len_spec hlen hinbox₁
  have hinbox₂ : fd₂.inbox = payload ++ rest := inbox_behind hinbox₁ hline₂
  -- the payload
  obtain ⟨fd₃, hread₃, hline₃⟩ := client_payload fd₂ (m := m) (by
    rw [hm, hinbox₂, List.length_append]
    omega)
  have htake : fd₂.inbox.take m.toNat = payload := by
    rw [hm, hinbox₂]
    exact List.take_left
  rw [htake] at hread₃
  refine ⟨fd₃, ?_, ?_⟩
  · unfold client_recv
    rw [hread₁]
    show (if (0 : Int) < 0 then _ else if (0 ||| len7 payload.length) &&& 0x80 ≠ 0 then _ else
      match client_recv_len fd₁ ((0 ||| len7 payload.length) &&& 0x7F) with
      | (none, fd) => _
      | (some n, fd) => _) = _
    rw [if_neg (by decide), hmask, if_neg (by simp), hseven, hread₂]
    dsimp only
    rw [if_neg (by omega), hread₃]
    dsimp only
    rw [if_neg (by decide)]
    show (some ((0x80 ||| opcode) &&& 0x0F, payload), fd₃) = _
    rw [hopcode]
  · have hsum : (server_bytes opcode payload).length =
        2 + ((len_ext payload.length).length + payload.length) := by
      rw [server_bytes, head, List.length_append, List.length_cons, List.length_cons]
      omega
    rw [hline₃, hline₂, hline₁, Line.skip_skip, Line.skip_skip, hm, hsum]

/-- As many calls of `client_recv`. -/
def client_recvs (cap : Nat) : (n : Nat) → Wire → List (Option (UInt8 × List UInt8)) × Wire
  | 0, fd => ([], fd)
  | n + 1, fd =>
    let (m, fd) := client_recv fd cap
    let (ms, fd) := client_recvs cap n fd
    (m :: ms, fd)

/-- The bytes of server frames. -/
def replies_bytes (ms : List (UInt8 × List UInt8)) : List UInt8 :=
  ms.flatMap fun m => server_bytes m.1 m.2

/-- **What the server sends, the client takes apart**, by induction on the frames. -/
theorem client_recv_frames {cap : Nat} {rest : List UInt8} (ms : List (UInt8 × List UInt8)) :
    ∀ fd : Wire, (∀ m ∈ ms, Known m.1 ∧ m.2.length ≤ cap ∧ m.2.length < 2 ^ 63) →
      fd.inbox = replies_bytes ms ++ rest →
      ∃ fd', client_recvs cap ms.length fd = (ms.map some, fd') ∧
        fd'.line = fd.line.skip (replies_bytes ms).length := by
  induction ms with
  | nil => exact fun fd _ _ => ⟨fd, rfl, rfl⟩
  | cons m ms ih =>
      intro fd hms h
      obtain ⟨hop, hcap, hlen⟩ := hms m List.mem_cons_self
      have hsplit : replies_bytes (m :: ms) = server_bytes m.1 m.2 ++ replies_bytes ms :=
        List.flatMap_cons
      rw [hsplit, List.append_assoc] at h
      obtain ⟨fd₁, hread, hline⟩ := client_recv_server hop hcap hlen h
      have hinbox : fd₁.inbox = replies_bytes ms ++ rest := inbox_behind h hline
      obtain ⟨fd₂, hreads, hline'⟩ := ih fd₁ (fun m' hm' => hms m' (List.mem_cons_of_mem m hm')) hinbox
      refine ⟨fd₂, ?_, ?_⟩
      · rw [List.length_cons, client_recvs, hread]
        dsimp only
        rw [hreads]
        rfl
      · rw [hline', hline, Line.skip_skip, hsplit, List.length_append]

/-- A code is the two bytes that it is sent as. -/
theorem code_of_bytes {n : Nat} (h : n < 2 ^ 16) :
    ((be 2 n).getD 0 0).toNat <<< 8 ||| ((be 2 n).getD 1 0).toNat = n := by
  have hhigh : ((be 2 n).getD 0 0).toNat = n / 256 := by
    show (UInt8.ofNat (n / 256)).toNat = n / 256
    rw [UInt8.toNat_ofNat']
    omega
  have hlow : ((be 2 n).getD 1 0).toNat = n % 256 := UInt8.toNat_ofNat'
  rw [hhigh, hlow, ← Nat.shiftLeft_add_eq_or_of_lt (Nat.mod_lt n (by decide : 0 < 2 ^ 8)),
    Nat.shiftLeft_eq]
  omega

/-- **The code the server closes with** reaches the client. -/
theorem client_recv_close_spec {fd : Wire} {code : Int} {rest : List UInt8} (hnn : 0 ≤ code)
    (hlt : code < 2 ^ 16) (h : fd.inbox = close_bytes code ++ rest) :
    ∃ fd', client_recv_close fd = (code, fd') ∧ fd'.line = fd.line.skip (close_bytes code).length := by
  obtain ⟨n, rfl⟩ := Int.eq_ofNat_of_zero_le hnn
  obtain ⟨fd', hread, hline⟩ : ∃ fd', client_recv fd 125 = (some (OP_CLOSE, be 2 n), fd') ∧
      fd'.line = fd.line.skip (close_bytes n).length :=
    client_recv_server (by decide) (by rw [be_length]; decide) (by rw [be_length]; decide) h
  refine ⟨fd', ?_, hline⟩
  rw [client_recv_close, hread]
  show (if OP_CLOSE ≠ 0x8 ∨ (be 2 n).length < 2 then ((-1 : Int), fd')
    else ((((be 2 n).getD 0 0).toNat <<< 8 ||| ((be 2 n).getD 1 0).toNat : Nat), fd')) = _
  rw [if_neg (by rw [be_length]; decide), code_of_bytes (by omega)]

/-! ## §4. Client frames. -/

theorem mask_four : MASK.length = 4 := rfl

theorem known_ping : Known OP_PING := by decide

theorem mask_or : ∀ n < 126, UInt8.ofNat (0x80 ||| n) = 0x80 ||| UInt8.ofNat n := by decide +kernel

/-- **`build_frame`** writes the bytes of its frame. -/
theorem build_frame_eq (f : Frame) (hmask : f.mask = MASK) (hlen : f.payload.length ≤ 0xFFFF) :
    build_frame f.fin f.opcode f.payload = f.bytes := by
  have hhead : build_header f.fin 0 f.opcode true f.payload.length =
      head f.fin f.opcode 0x80 f.payload.length := by
    unfold build_header head len7 len_ext
    have hrsv : (0 : UInt8) &&& 0x70 = 0 := by decide
    rw [if_pos rfl, hrsv, UInt8.or_zero]
    by_cases hsmall : f.payload.length < 126
    · rw [if_pos hsmall, if_pos hsmall, if_pos hsmall]
      show [_, UInt8.ofNat (0x80 ||| f.payload.length)] = _
      rw [mask_or _ hsmall]
    · rw [if_neg hsmall, if_neg hsmall, if_neg hsmall, if_pos hlen, if_pos hlen,
        Nat.shiftRight_eq_div_pow]
      rfl
  rw [build_frame, hhead, Frame.bytes, hmask]
  rfl

/-- The server takes a frame's bytes apart. -/
theorem recv_frame_bytes {c : Conn} {f : Frame} {rest : List UInt8} (h : c.stream = f.bytes ++ rest) :
    ∃ c', recv_frame c = (.ok (f.hdr, f.payload), c') ∧ c'.stream = rest := by
  have hagrees := recv_frame_stream c
  rw [h, parse_bytes] at hagrees
  generalize hres : recv_frame c = res at hagrees
  cases hagrees with
  | ok hreads hrel => exact ⟨_, by rw [hrel], rfl⟩

/-- **From the client to the server**: a frame that fits the client's buffer is handed over as its
    bytes, and the server, wherever these are cut, takes the same frame off its stream and no byte
    more; of a frame that does not fit nothing is sent. -/
theorem client_send_frame_spec (f : Frame) (hmask : f.mask = MASK) (fd : Wire) :
    if f.payload.length ≤ 504 then
      ∃ fd', client_send_frame fd f.fin f.opcode f.payload =
          (if f.bytes.length ≤ fd.room then 0 else -1, fd') ∧
        fd'.line = fd.line.send f.bytes ∧
        ∀ (c : Conn) (rest : List UInt8), c.stream = f.bytes ++ rest →
          ∃ c', recv_frame c = (.ok (f.hdr, f.payload), c') ∧ c'.stream = rest
    else client_send_frame fd f.fin f.opcode f.payload = (-1, fd) := by
  unfold client_send_frame
  by_cases hfit : f.payload.length ≤ 504
  · obtain ⟨fd', hwrite, hline⟩ := write_spec fd f.bytes
    rw [if_pos hfit, if_neg (by omega), build_frame_eq f hmask (by omega), hwrite]
    refine ⟨fd', ?_, hline, fun c rest h => recv_frame_bytes h⟩
    show (if (if f.bytes.length ≤ fd.room then (f.bytes.length : Int) else -1) < 0 then (-1 : Int) else 0,
      fd') = _
    congr 1
    omega
  · rw [if_neg hfit, if_pos (by omega)]

/-- A ping. -/
def ping : Frame :=
  ⟨true, OP_PING, MASK, [1, 2, 3], known_ping, fun _ => ⟨rfl, by decide⟩, by decide, mask_four⟩

theorem client_send_frame_spec_ping :
    if ping.payload.length ≤ 504 then
      ∃ fd', client_send_frame ⟨[], .closed, [], [], 20, [.bytes 4]⟩ ping.fin ping.opcode ping.payload =
          (if ping.bytes.length ≤ 20 then 0 else -1, fd') ∧
        fd'.line = (Wire.line ⟨[], .closed, [], [], 20, [.bytes 4]⟩).send ping.bytes ∧
        ∀ (c : Conn) (rest : List UInt8), c.stream = ping.bytes ++ rest →
          ∃ c', recv_frame c = (.ok (ping.hdr, ping.payload), c') ∧ c'.stream = rest
    else client_send_frame ⟨[], .closed, [], [], 20, [.bytes 4]⟩ ping.fin ping.opcode ping.payload =
      (-1, ⟨[], .closed, [], [], 20, [.bytes 4]⟩) :=
  client_send_frame_spec ping rfl ⟨[], .closed, [], [], 20, [.bytes 4]⟩

end CFiber.Ws
