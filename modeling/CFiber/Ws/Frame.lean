/-
  CFiber.Ws.Frame — WebSocket frames (`examples/ws_echo/ws_echo.c`).

  `recv_frame` reads a client frame field by field and refuses it as soon as a field is wrong;
  `send_frame` writes a server frame.  A `Frame` is a client frame that the protocol allows, and
  `Frame.bytes` its bytes, with the shortest form of the length.

    • `recv_frame_stream` — what `recv_frame` returns is a function of the stream alone;
    • `parse_ok`          — it accepts exactly the streams that begin with a frame;
    • `refused_hopeless`, `hopeless_refused` — it refuses only what no further bytes make a frame,
      and all of that, once the header is there;
    • `too_big_iff`       — what it refuses as too big is a data frame of more than 64 KiB;
    • `send_frame_spec`   — what `send_frame` hands over.
-/
import CFiber.Base.BigEndian
import CFiber.Ws.Wire

namespace CFiber.Ws

open CFiber.Base

/-! ## §1. The code. -/

def OP_CONT : UInt8 := 0x0

def OP_TEXT : UInt8 := 0x1

def OP_BIN : UInt8 := 0x2

def OP_CLOSE : UInt8 := 0x8

def OP_PING : UInt8 := 0x9

def OP_PONG : UInt8 := 0xA

def CLOSE_PROTOCOL : Int := 1002

def CLOSE_TOO_BIG : Int := 1009

def MAX_PAYLOAD : Nat := 64 * 1024

/-- `for (int i = 7; i >= 0; i--)`. -/
def len_64 (len : UInt64) : List UInt8 :=
  ([7, 6, 5, 4, 3, 2, 1, 0] : List UInt64).map fun i => (len >>> (i * 8)).toUInt8

/-- Send one server frame. -/
def send_frame (fd : Wire) (opcode : UInt8) (payload : List UInt8) : Int × Wire :=
  let len := payload.length
  let hdr : List UInt8 := [0x80 ||| opcode]  -- FIN + opcode
  let hdr : List UInt8 :=
    if len < 126 then hdr ++ [UInt8.ofNat len]
    else if len ≤ 0xFFFF then hdr ++ [126, UInt8.ofNat (len >>> 8), UInt8.ofNat len]
    else hdr ++ 127 :: len_64 (UInt64.ofNat len)
  let (r, fd) := cfiber_ev_write fd hdr
  if r < 0 then (-1, fd)
  else if len ≠ 0 then
    let (r, fd) := cfiber_ev_write fd payload
    if r < 0 then (-1, fd) else (0, fd)
  else (0, fd)

def send_close (fd : Wire) (code : Int) : Int × Wire :=
  send_frame fd OP_CLOSE [UInt8.ofInt (code >>> (8 : Nat)), UInt8.ofInt code]

/-- `frame_hdr_t`. -/
structure FrameHdr where
  fin : UInt8
  opcode : UInt8
  len : Nat
  deriving DecidableEq, Repr

/-- `n`, from the seven bits and the bytes of the extended length; or what `recv_frame` returns. -/
def recv_len (c : Conn) (n : UInt8) : Except Int UInt64 × Conn :=
  if n = 126 then
    let (rc, e, c) := conn_read_exact c 2
    if rc ≤ 0 then (.error (-1), c)
    else
      let n := (e.getD 0 0).toUInt64 <<< 8 ||| (e.getD 1 0).toUInt64
      if n < 126 then (.error CLOSE_PROTOCOL, c)  -- length must use the shortest encoding
      else (.ok n, c)
  else if n = 127 then
    let (rc, e, c) := conn_read_exact c 8
    if rc ≤ 0 then (.error (-1), c)
    else
      let n := e.foldl (fun (n : UInt64) b => n <<< 8 ||| b.toUInt64) 0
      if n ≤ 0xFFFF ∨ n >>> 63 ≠ 0 then (.error CLOSE_PROTOCOL, c) else (.ok n, c)
  else (.ok n.toUInt64, c)

/-- `payload[i] ^= mask[i & 3]`. -/
def unmask (mask payload : List UInt8) : List UInt8 :=
  payload.mapIdx fun i b => b ^^^ mask.getD (i &&& 3) 0

/-- The mask and the payload, unmasked in place; or what `recv_frame` returns. -/
def recv_payload (c : Conn) (n : Nat) : Except Int (List UInt8) × Conn :=
  let (rc, mask, c) := conn_read_exact c 4
  if rc ≤ 0 then (.error (-1), c)
  else
    let (rc, payload, c) := if n ≠ 0 then conn_read_exact c n else (1, [], c)
    if rc ≤ 0 then (.error (-1), c) else (.ok (unmask mask payload), c)

def Known (opcode : UInt8) : Prop := opcode ≤ OP_BIN ∨ opcode ≥ OP_CLOSE ∧ opcode ≤ OP_PONG

instance : DecidablePred Known := fun _ => inferInstanceAs (Decidable (_ ∨ _))

/-- The fields behind the first two bytes; `n` has the seven bits of the length. -/
def recv_fields (c : Conn) (fin opcode n : UInt8) : Except Int (FrameHdr × List UInt8) × Conn :=
  match recv_len c n with
  | (.error rc, c) => (.error rc, c)
  | (.ok n, c) =>
    if opcode ≥ OP_CLOSE ∧ (fin = 0 ∨ n > 125) then
      (.error CLOSE_PROTOCOL, c)  -- control frames: unfragmented, at most 125 bytes
    else if n.toNat > MAX_PAYLOAD then (.error CLOSE_TOO_BIG, c)
    else
      match recv_payload c n.toNat with
      | (.error rc, c) => (.error rc, c)
      | (.ok payload, c) => (.ok (⟨fin, opcode, n.toNat⟩, payload), c)

/-- Read one client frame; what is returned when it is not 1, or the frame. -/
def recv_frame (c : Conn) : Except Int (FrameHdr × List UInt8) × Conn :=
  let (rc, b, c) := conn_read_exact c 2
  if rc ≤ 0 then (.error rc, c)
  else
    let b₀ := b.getD 0 0
    let b₁ := b.getD 1 0
    if b₀ &&& 0x70 ≠ 0 ∨ ¬ Known (b₀ &&& 0x0F) ∨ b₁ &&& 0x80 = 0 then (.error CLOSE_PROTOCOL, c)
    else recv_fields c (b₀ &&& 0x80) (b₀ &&& 0x0F) (b₁ &&& 0x7F)

/-! ## §2. The protocol. -/

/-- The length of the payload in the second byte, and the bytes that follow. -/
def len7 (n : Nat) : UInt8 :=
  if n < 126 then UInt8.ofNat n else if n ≤ 0xFFFF then 126 else 127

def len_ext (n : Nat) : List UInt8 :=
  if n < 126 then [] else if n ≤ 0xFFFF then be 2 n else be 8 n

/-- A frame's header; `m` is the mask bit. -/
def head (fin : Bool) (opcode m : UInt8) (n : Nat) : List UInt8 :=
  ((if fin then 0x80 else 0) ||| opcode) :: (m ||| len7 n) :: len_ext n

/-- A client frame that the protocol and the server's limit allow. -/
structure Frame where
  fin : Bool
  opcode : UInt8
  mask : List UInt8
  payload : List UInt8
  known : Known opcode
  /-- Control frames are not fragmented and short. -/
  control : opcode ≥ OP_CLOSE → fin = true ∧ payload.length ≤ 125
  small : payload.length ≤ MAX_PAYLOAD
  mask_length : mask.length = 4

namespace Frame

/-- Always masked. -/
def bytes (f : Frame) : List UInt8 :=
  head f.fin f.opcode 0x80 f.payload.length ++ f.mask ++ unmask f.mask f.payload

def hdr (f : Frame) : FrameHdr := ⟨if f.fin then 0x80 else 0, f.opcode, f.payload.length⟩

end Frame

/-- The stream begins with a frame. -/
def Begins (s : List UInt8) : Prop := ∃ (f : Frame) (rest : List UInt8), s = f.bytes ++ rest

/-- No bytes make it begin with one. -/
def Hopeless (s : List UInt8) : Prop := ∀ more, ¬ Begins (s ++ more)

/-- The bytes of a server frame. -/
def server_bytes (opcode : UInt8) (payload : List UInt8) : List UInt8 :=
  head true opcode 0 payload.length ++ payload

/-! ## §3. The parser on a stream. -/

/-- Why no frame is read. -/
inductive Stop where
  | short
  | refused (code : Int)
  deriving DecidableEq, Repr

/-- The length and what follows it. -/
def parse_len (n : UInt8) (s : List UInt8) : Except Stop (Nat × List UInt8) :=
  if n = 126 then
    if s.length < 2 then .error .short
    else if of_be (s.take 2) < 126 then .error (.refused CLOSE_PROTOCOL)
    else .ok (of_be (s.take 2), s.drop 2)
  else if n = 127 then
    if s.length < 8 then .error .short
    else if of_be (s.take 8) ≤ 0xFFFF ∨ 2 ^ 63 ≤ of_be (s.take 8) then
      .error (.refused CLOSE_PROTOCOL)
    else .ok (of_be (s.take 8), s.drop 8)
  else .ok (n.toNat, s)

/-- The fields behind the first two bytes, and what follows them. -/
def parse_fields (fin opcode n : UInt8) (s : List UInt8) :
    Except Stop ((FrameHdr × List UInt8) × List UInt8) :=
  match parse_len n s with
  | .error e => .error e
  | .ok (n, s) =>
    if opcode ≥ OP_CLOSE ∧ (fin = 0 ∨ n > 125) then .error (.refused CLOSE_PROTOCOL)
    else if n > MAX_PAYLOAD then .error (.refused CLOSE_TOO_BIG)
    else if s.length < 4 + n then .error .short
    else .ok ((⟨fin, opcode, n⟩, unmask (s.take 4) ((s.drop 4).take n)), s.drop (4 + n))

/-- The frame, and what follows it. -/
def parse : List UInt8 → Except Stop ((FrameHdr × List UInt8) × List UInt8)
  | b₀ :: b₁ :: s =>
    if b₀ &&& 0x70 ≠ 0 ∨ ¬ Known (b₀ &&& 0x0F) ∨ b₁ &&& 0x80 = 0 then
      .error (.refused CLOSE_PROTOCOL)
    else parse_fields (b₀ &&& 0x80) (b₀ &&& 0x0F) (b₁ &&& 0x7F) s
  | _ => .error .short

/-! ## §4. The stream decides. -/

/-- Only reading happened. -/
structure Reads (c c' : Conn) : Prop where
  kept : Kept c c'
  line : ∃ k, c'.line = c.line.skip k

theorem Reads.refl (c : Conn) : Reads c c := ⟨.refl c, 0, rfl⟩

theorem Reads.trans {c c' c'' : Conn} (h : Reads c c') (h' : Reads c' c'') : Reads c c'' := by
  obtain ⟨k, hk⟩ := h.line
  obtain ⟨k', hk'⟩ := h'.line
  refine ⟨h.kept.trans h'.kept, k + k', ?_⟩
  rw [hk', hk, Line.skip_skip]

theorem Reads.ending {c c' : Conn} (h : Reads c c') : c'.fd.ending = c.fd.ending := by
  obtain ⟨k, hk⟩ := h.line
  exact congrArg Line.ending hk

theorem exact_got {c : Conn} {n : Nat} (h : n ≤ c.stream.length) :
    ∃ c', conn_read_exact c n = (1, c.stream.take n, c') ∧ Reads c c' ∧
      c'.stream = c.stream.drop n := by
  have hspec := exact_spec c n
  obtain ⟨hrc, hbuf⟩ := hspec.got h
  refine ⟨(conn_read_exact c n).2.2, ?_, ⟨hspec.kept, n, hspec.line⟩, congrArg Line.input hspec.line⟩
  rw [List.nil_append] at hbuf
  rw [← hbuf, ← hrc]

theorem exact_short {c : Conn} {n : Nat} (h : c.stream.length < n) :
    ∃ buf c', conn_read_exact c n = (c.fd.ending.code, buf, c') ∧ Reads c c' := by
  have hspec := exact_spec c n
  refine ⟨(conn_read_exact c n).2.1, (conn_read_exact c n).2.2, ?_, hspec.kept, n, hspec.line⟩
  rw [← hspec.short h]

theorem toNat_shift_or (n : UInt64) (b : UInt8) (h : n.toNat < 2 ^ 56) :
    (n <<< 8 ||| b.toUInt64).toNat = n.toNat * 256 + b.toNat := by
  have hb := b.toNat_lt
  have hshift : n.toNat <<< 8 % 2 ^ 64 = n.toNat <<< 8 := by
    rw [Nat.shiftLeft_eq]
    omega
  rw [UInt64.toNat_or, UInt64.toNat_shiftLeft]
  show n.toNat <<< 8 % 2 ^ 64 ||| b.toUInt64.toNat = _
  rw [hshift, UInt8.toNat_toUInt64, ← Nat.shiftLeft_add_eq_or_of_lt hb, Nat.shiftLeft_eq]

/-- The loop over the length's bytes, by induction on them. -/
theorem toNat_len (e : List UInt8) (h : e.length ≤ 8) :
    (e.foldl (fun (n : UInt64) b => n <<< 8 ||| b.toUInt64) 0).toNat = of_be e := by
  induction e using List.reverseRecOn with
  | nil => rfl
  | append_singleton e b ih =>
      rw [List.length_append, List.length_singleton] at h
      have hbound : of_be e < 2 ^ 56 := by
        calc of_be e < 256 ^ e.length := of_be_lt e
          _ ≤ 256 ^ 7 := Nat.pow_le_pow_right (by decide) (by omega)
      have ih := ih (by omega)
      rw [List.foldl_append, of_be_snoc, ← ih]
      exact toNat_shift_or _ b (by rw [ih]; exact hbound)

theorem toNat_len_two {e : List UInt8} (h : e.length = 2) :
    ((e.getD 0 0).toUInt64 <<< 8 ||| (e.getD 1 0).toUInt64).toNat = of_be e := by
  match e, h with
  | [a, b], _ =>
      have hloop := toNat_len [a, b] (by simp)
      rw [← hloop]
      simp

theorem long_iff (v : UInt64) :
    (v ≤ 0xFFFF ∨ v >>> 63 ≠ 0) ↔ (v.toNat ≤ 0xFFFF ∨ 2 ^ 63 ≤ v.toNat) := by
  have hv := v.toNat_lt
  have hshift : (v >>> 63).toNat = v.toNat / 2 ^ 63 := by
    rw [UInt64.toNat_shiftRight]
    exact Nat.shiftRight_eq_div_pow _ _
  have htop : v >>> 63 ≠ 0 ↔ 2 ^ 63 ≤ v.toNat := by
    rw [Ne, ← UInt64.toNat_inj, hshift]
    show ¬ v.toNat / 2 ^ 63 = 0 ↔ _
    omega
  rw [htop, UInt64.le_iff_toNat_le]
  rfl

/-- The code and the parser agree: on a value and what follows it, on the input being too short, when
    the code returns `rc`, or on the refusal. -/
inductive Agrees {α β : Type} (rel : α → β → Prop) (c : Conn) (rc : Int) :
    Except Int α × Conn → Except Stop (β × List UInt8) → Prop
  | ok {a : α} {b : β} {c' : Conn} (h : Reads c c') (hrel : rel a b) :
    Agrees rel c rc (.ok a, c') (.ok (b, c'.stream))
  | short {c' : Conn} (h : Reads c c') : Agrees rel c rc (.error rc, c') (.error .short)
  | refused {c' : Conn} (code : Int) (h : Reads c c') :
    Agrees rel c rc (.error code, c') (.error (.refused code))

/-- The extended length. -/
theorem recv_len_agrees (c : Conn) (n : UInt8) :
    Agrees (fun m v => UInt64.toNat m = v) c (-1) (recv_len c n) (parse_len n c.stream) := by
  unfold parse_len recv_len
  split_ifs with h126 hshort hlow h127 hshort hwrong
  · obtain ⟨buf, c', hread, hc'⟩ := exact_short hshort
    rw [hread]
    dsimp only
    rw [if_pos (Ending.code_le _)]
    exact .short hc'
  · obtain ⟨c', hread, hc', -⟩ := exact_got (Nat.le_of_not_lt hshort)
    have hval := toNat_len_two (e := c.stream.take 2) (by rw [List.length_take]; omega)
    rw [hread]
    dsimp only
    rw [if_neg (by decide), if_pos (by rw [UInt64.lt_iff_toNat_lt, hval]; exact hlow)]
    exact .refused _ hc'
  · obtain ⟨c', hread, hc', hrest⟩ := exact_got (Nat.le_of_not_lt hshort)
    have hval := toNat_len_two (e := c.stream.take 2) (by rw [List.length_take]; omega)
    rw [hread, ← hrest]
    dsimp only
    rw [if_neg (by decide), if_neg (by rw [UInt64.lt_iff_toNat_lt, hval]; exact hlow)]
    exact .ok hc' hval
  · obtain ⟨buf, c', hread, hc'⟩ := exact_short hshort
    rw [hread]
    dsimp only
    rw [if_pos (Ending.code_le _)]
    exact .short hc'
  · obtain ⟨c', hread, hc', -⟩ := exact_got (Nat.le_of_not_lt hshort)
    have hval := toNat_len (c.stream.take 8) (by rw [List.length_take]; omega)
    rw [hread]
    dsimp only
    rw [if_neg (by decide), if_pos (by rw [long_iff, hval]; exact hwrong)]
    exact .refused _ hc'
  · obtain ⟨c', hread, hc', hrest⟩ := exact_got (Nat.le_of_not_lt hshort)
    have hval := toNat_len (c.stream.take 8) (by rw [List.length_take]; omega)
    rw [hread, ← hrest]
    dsimp only
    rw [if_neg (by decide), if_neg (by rw [long_iff, hval]; exact hwrong)]
    exact .ok hc' hval
  · exact .ok (.refl _) (UInt8.toNat_toUInt64 n)

/-- The code after bytes that were read before. -/
theorem Agrees.after {α β : Type} {rel : α → β → Prop} {c c' : Conn} {rc : Int}
    {r : Except Int α × Conn} {p : Except Stop (β × List UInt8)} (h : Reads c c')
    (h' : Agrees rel c' rc r p) : Agrees rel c rc r p := by
  cases h' with
  | ok hc hrel => exact .ok (h.trans hc) hrel
  | short hc => exact .short (h.trans hc)
  | refused code hc => exact .refused code (h.trans hc)

/-- No call is made for an empty payload. -/
theorem payload_got {c : Conn} {n : Nat} (h : n ≤ c.stream.length) :
    ∃ c', (if n ≠ 0 then conn_read_exact c n else (1, [], c)) = (1, c.stream.take n, c') ∧
      Reads c c' ∧ c'.stream = c.stream.drop n := by
  by_cases hn : n = 0
  · subst hn
    exact ⟨c, rfl, .refl c, rfl⟩
  · rw [if_pos hn]
    exact exact_got h

/-- The mask and the payload. -/
theorem recv_payload_agrees (c : Conn) (n : Nat) :
    Agrees Eq c (-1) (recv_payload c n)
      (if c.stream.length < 4 + n then .error .short
        else .ok (unmask (c.stream.take 4) ((c.stream.drop 4).take n), c.stream.drop (4 + n))) := by
  unfold recv_payload
  by_cases hmask : c.stream.length < 4
  · obtain ⟨buf, c', hread, hc'⟩ := exact_short hmask
    rw [hread, if_pos (by omega)]
    dsimp only
    rw [if_pos (Ending.code_le _)]
    exact .short hc'
  · obtain ⟨c', hread, hc', hrest⟩ := exact_got (Nat.le_of_not_lt hmask)
    have hlen : c'.stream.length = c.stream.length - 4 := by rw [hrest, List.length_drop]
    rw [hread]
    dsimp only
    rw [if_neg (by decide)]
    apply Agrees.after hc'
    by_cases hshort : c.stream.length < 4 + n
    · obtain ⟨buf, c'', hread', hc''⟩ := exact_short (c := c') (n := n) (by omega)
      have hn : n ≠ 0 := by omega
      rw [if_pos hshort, if_pos hn, hread']
      dsimp only
      rw [if_pos (Ending.code_le _)]
      exact .short hc''
    · obtain ⟨c'', hread', hc'', hrest'⟩ := payload_got (c := c') (n := n) (by omega)
      have hdrop : c.stream.drop (4 + n) = c''.stream := by
        rw [hrest', hrest, List.drop_drop]
      rw [if_neg hshort, hread', hdrop, ← hrest]
      dsimp only
      rw [if_neg (by decide)]
      exact .ok hc'' rfl

/-- The fields behind the first two bytes. -/
theorem recv_fields_agrees (c : Conn) (fin opcode n : UInt8) :
    Agrees Eq c (-1) (recv_fields c fin opcode n) (parse_fields fin opcode n c.stream) := by
  unfold recv_fields parse_fields
  have hlen := recv_len_agrees c n
  generalize recv_len c n = r at hlen
  generalize parse_len n c.stream = p at hlen
  cases hlen with
  | @ok m v c' hc' hv =>
      obtain rfl : m.toNat = v := hv
      have hlong : m > 125 ↔ m.toNat > 125 := UInt64.lt_iff_toNat_lt
      dsimp only
      simp only [hlong]
      by_cases hcontrol : opcode ≥ OP_CLOSE ∧ (fin = 0 ∨ m.toNat > 125)
      · rw [if_pos hcontrol, if_pos hcontrol]
        exact .refused _ hc'
      by_cases hbig : m.toNat > MAX_PAYLOAD
      · rw [if_neg hcontrol, if_neg hcontrol, if_pos hbig, if_pos hbig]
        exact .refused _ hc'
      rw [if_neg hcontrol, if_neg hcontrol, if_neg hbig, if_neg hbig]
      apply Agrees.after hc'
      have hpay := recv_payload_agrees c' m.toNat
      generalize recv_payload c' m.toNat = r at hpay
      by_cases hshort : c'.stream.length < 4 + m.toNat
      · rw [if_pos hshort] at hpay ⊢
        cases hpay with
        | short hc'' => exact .short hc''
      · rw [if_neg hshort] at hpay ⊢
        generalize c'.stream.drop (4 + m.toNat) = rest at hpay ⊢
        cases hpay with
        | @ok _ _ c'' hc'' hp => exact .ok hc'' (by rw [hp])
  | short hc' => exact .short hc'
  | refused code hc' => exact .refused code hc'

/-- What `recv_frame` returns when the input ends in a frame. -/
def short_code (c : Conn) : Int := if c.stream.length < 2 then c.fd.ending.code else -1

/-- **`recv_frame`** does what the parser says of the stream: where the stream is cut does not show. -/
theorem recv_frame_stream (c : Conn) :
    Agrees Eq c (short_code c) (recv_frame c) (parse c.stream) := by
  unfold recv_frame
  match hs : c.stream with
  | [] | [_] =>
      have hshort : c.stream.length < 2 := by rw [hs]; simp
      obtain ⟨buf, c', hread, hc'⟩ := exact_short hshort
      have hcode : short_code c = c.fd.ending.code := if_pos hshort
      rw [hread]
      dsimp only
      rw [if_pos (Ending.code_le _), hcode]
      exact .short hc'
  | b₀ :: b₁ :: s =>
      have hcode : short_code c = -1 := if_neg (by rw [hs]; simp)
      obtain ⟨c', hread, hc', hrest⟩ := exact_got (c := c) (n := 2) (by rw [hs]; simp)
      rw [hs] at hread hrest
      change c'.stream = s at hrest
      change conn_read_exact c 2 = (1, [b₀, b₁], c') at hread
      rw [hread, hcode, parse, ← hrest]
      apply Agrees.after hc'
      dsimp only
      rw [if_neg (by decide)]
      show Agrees Eq c' (-1) (if b₀ &&& 0x70 ≠ 0 ∨ ¬ Known (b₀ &&& 0x0F) ∨ b₁ &&& 0x80 = 0 then _ else _) _
      split_ifs with hbad
      · exact .refused _ (.refl _)
      · exact recv_fields_agrees c' _ _ _

/-! ## §5. Bytes. -/

/-- A property of bytes, checked on all of them. -/
theorem forall_byte {P : UInt8 → Prop} (h : ∀ n < 256, P (UInt8.ofNat n)) (b : UInt8) : P b := by
  have hb := h b.toNat b.toNat_lt
  rwa [UInt8.ofNat_toNat] at hb

theorem first_byte (fin : Bool) : ∀ opcode : UInt8, Known opcode →
    ((if fin then 0x80 else 0) ||| opcode) &&& 0x70 = 0 ∧
      ((if fin then 0x80 else 0) ||| opcode) &&& 0x0F = opcode ∧
      ((if fin then 0x80 else 0) ||| opcode) &&& 0x80 = if fin then 0x80 else 0 := by
  cases fin
  · exact forall_byte (by decide +kernel)
  · exact forall_byte (by decide +kernel)

theorem first_byte_eq : ∀ b : UInt8, b &&& 0x70 = 0 →
    b = (if b &&& 0x80 = 0x80 then 0x80 else 0) ||| (b &&& 0x0F) ∧
      b &&& 0x80 = if b &&& 0x80 = 0x80 then 0x80 else 0 :=
  forall_byte (by decide +kernel)

theorem second_byte : ∀ v : UInt8, v.toNat < 128 →
    (0x80 ||| v) &&& 0x80 ≠ 0 ∧ (0x80 ||| v) &&& 0x7F = v ∧ (0 ||| v) &&& 0x80 = 0 ∧
      (0 ||| v) &&& 0x7F = v :=
  forall_byte (by decide +kernel)

theorem second_byte_eq : ∀ b : UInt8, b &&& 0x80 ≠ 0 →
    b = 0x80 ||| (b &&& 0x7F) ∧ (b &&& 0x7F).toNat < 128 :=
  forall_byte (by decide +kernel)

theorem len7_lt (n : Nat) : (len7 n).toNat < 128 := by
  unfold len7
  split_ifs with hsmall hmid
  · rw [UInt8.toNat_ofNat']
    omega
  · decide
  · decide

theorem len7_small {n : Nat} (h : n < 126) :
    (len7 n).toNat = n ∧ len7 n ≠ 126 ∧ len7 n ≠ 127 ∧ len_ext n = [] := by
  have hval : (len7 n).toNat = n := by
    rw [len7, if_pos h, UInt8.toNat_ofNat']
    omega
  refine ⟨hval, ?_, ?_, if_pos h⟩
  · rw [Ne, ← UInt8.toNat_inj, hval]
    exact Nat.ne_of_lt h
  · rw [Ne, ← UInt8.toNat_inj, hval]
    exact Nat.ne_of_lt (by show n < 127; omega)

theorem len7_mid {n : Nat} (h : ¬ n < 126) (h' : n ≤ 0xFFFF) : len7 n = 126 ∧ len_ext n = be 2 n := by
  rw [len7, len_ext, if_neg h, if_neg h, if_pos h', if_pos h']
  exact ⟨rfl, rfl⟩

theorem len7_large {n : Nat} (h : ¬ n ≤ 0xFFFF) : len7 n = 127 ∧ len_ext n = be 8 n := by
  have h' : ¬ n < 126 := by omega
  rw [len7, len_ext, if_neg h', if_neg h', if_neg h, if_neg h]
  exact ⟨rfl, rfl⟩

/-- The length comes back from its bytes. -/
theorem parse_len_ext {n : Nat} (hn : n < 2 ^ 63) (s : List UInt8) :
    parse_len (len7 n) (len_ext n ++ s) = .ok (n, s) := by
  unfold parse_len
  by_cases hsmall : n < 126
  · obtain ⟨hval, h126, h127, hext⟩ := len7_small hsmall
    rw [if_neg h126, if_neg h127, hval, hext]
    rfl
  by_cases hmid : n ≤ 0xFFFF
  · obtain ⟨h7, hext⟩ := len7_mid hsmall hmid
    have htake : (be 2 n ++ s).take 2 = be 2 n := List.take_left' (be_length 2 n)
    have hdrop : (be 2 n ++ s).drop 2 = s := List.drop_left' (be_length 2 n)
    have hval : of_be (be 2 n) = n := of_be_be (by omega)
    have hall : ¬ (be 2 n ++ s).length < 2 := by
      rw [List.length_append, be_length]
      omega
    rw [h7, hext, if_pos rfl, htake, hdrop, hval, if_neg hall, if_neg hsmall]
  · obtain ⟨h7, hext⟩ := len7_large hmid
    have htake : (be 8 n ++ s).take 8 = be 8 n := List.take_left' (be_length 8 n)
    have hdrop : (be 8 n ++ s).drop 8 = s := List.drop_left' (be_length 8 n)
    have hval : of_be (be 8 n) = n := of_be_be (by omega)
    have hall : ¬ (be 8 n ++ s).length < 8 := by
      rw [List.length_append, be_length]
      omega
    rw [h7, hext, if_neg (by decide), if_pos rfl, htake, hdrop, hval, if_neg hall, if_neg (by omega)]

/-- A length that is read is in its shortest form. -/
theorem parse_len_ok {n : UInt8} {s rest : List UInt8} {v : Nat} (hn : n.toNat < 128)
    (h : parse_len n s = .ok (v, rest)) : n = len7 v ∧ s = len_ext v ++ rest ∧ v < 2 ^ 63 := by
  unfold parse_len at h
  split_ifs at h with h126 hshort hlow h127 hshort hwrong
  · injection h with h
    injection h with hv hrest
    have hlt : of_be (s.take 2) < 256 ^ (s.take 2).length := of_be_lt _
    have hlen : (s.take 2).length = 2 := by rw [List.length_take]; omega
    have hbytes := be_of_be (s.take 2)
    rw [hlen, hv] at hlt hbytes
    rw [hv] at hlow
    refine ⟨?_, ?_, by omega⟩
    · rw [h126, len7, if_neg hlow, if_pos (by omega)]
    · rw [len_ext, if_neg hlow, if_pos (by omega), hbytes, ← hrest, List.take_append_drop]
  · injection h with h
    injection h with hv hrest
    have hlen : (s.take 8).length = 8 := by rw [List.length_take]; omega
    have hbytes := be_of_be (s.take 8)
    rw [hlen, hv] at hbytes
    rw [hv] at hwrong
    refine ⟨?_, ?_, by omega⟩
    · rw [h127, len7, if_neg (by omega), if_neg (by omega)]
    · rw [len_ext, if_neg (by omega), if_neg (by omega), hbytes, ← hrest, List.take_append_drop]
  · injection h with h
    injection h with hv hrest
    have h126' : n.toNat ≠ 126 := fun e => h126 (UInt8.toNat_inj.mp e)
    have h127' : n.toNat ≠ 127 := fun e => h127 (UInt8.toNat_inj.mp e)
    have hv' : v < 126 := by omega
    refine ⟨?_, ?_, by omega⟩
    · rw [len7, if_pos hv', ← hv, UInt8.ofNat_toNat]
    · rw [len_ext, if_pos hv', hrest]
      rfl

/-- The length's bytes are missing, or wrong. -/
theorem parse_len_error {n : UInt8} {s : List UInt8} {e : Stop} (h : parse_len n s = .error e) :
    (e = .short ∧ s.length < 8) ∨ e = .refused CLOSE_PROTOCOL := by
  unfold parse_len at h
  split_ifs at h with h126 hshort hlow h127 hshort hwrong
  · injection h with h
    exact Or.inl ⟨h.symm, by omega⟩
  · injection h with h
    exact Or.inr h.symm
  · injection h with h
    exact Or.inl ⟨h.symm, hshort⟩
  · injection h with h
    exact Or.inr h.symm

theorem unmask_length (mask payload : List UInt8) :
    (unmask mask payload).length = payload.length := List.length_mapIdx

theorem unmask_unmask (mask payload : List UInt8) : unmask mask (unmask mask payload) = payload := by
  apply List.ext_getElem (by rw [unmask_length, unmask_length])
  intro i _ _
  simp only [unmask, List.getElem_mapIdx]
  rw [UInt8.xor_assoc, UInt8.xor_self, UInt8.xor_zero]

/-! ## §6. The parser and the protocol. -/

/-- What is left to decide behind a header. -/
def parse_body (fin : Bool) (opcode : UInt8) (n : Nat) (s : List UInt8) :
    Except Stop ((FrameHdr × List UInt8) × List UInt8) :=
  if opcode ≥ OP_CLOSE ∧ (fin = false ∨ n > 125) then .error (.refused CLOSE_PROTOCOL)
  else if n > MAX_PAYLOAD then .error (.refused CLOSE_TOO_BIG)
  else if s.length < 4 + n then .error .short
  else .ok ((⟨if fin then 0x80 else 0, opcode, n⟩, unmask (s.take 4) ((s.drop 4).take n)),
    s.drop (4 + n))

theorem parse_header (fin : Bool) {opcode : UInt8} (hop : Known opcode) {n : Nat} (hn : n < 2 ^ 63)
    (s : List UInt8) : parse (head fin opcode 0x80 n ++ s) = parse_body fin opcode n s := by
  obtain ⟨hrsv, hopcode, hfin⟩ := first_byte fin opcode hop
  obtain ⟨hmask, hlen, -, -⟩ := second_byte (len7 n) (len7_lt n)
  have hgood : ¬ (((if fin then 0x80 else 0) ||| opcode) &&& 0x70 ≠ 0 ∨
      ¬ Known (((if fin then 0x80 else 0) ||| opcode) &&& 0x0F) ∨
      (0x80 ||| len7 n) &&& 0x80 = 0) := by
    rw [hrsv, hopcode]
    rintro (h | h | h)
    · exact h rfl
    · exact h hop
    · exact hmask h
  have hfrag : (if fin then 0x80 else (0 : UInt8)) = 0 ↔ fin = false := by
    cases fin <;> simp
  show parse (((if fin then 0x80 else 0) ||| opcode) :: (0x80 ||| len7 n) :: (len_ext n ++ s)) = _
  rw [parse, if_neg hgood, hopcode, hfin, hlen, parse_fields, parse_len_ext hn]
  simp only [hfrag]
  rfl

/-- A stream that is not refused for its first bytes, and not too short for them, begins with a
    header. -/
theorem header_of_parse {s : List UInt8} (hwrong : parse s ≠ .error (.refused CLOSE_PROTOCOL))
    (hshort : parse s = .error .short → 10 ≤ s.length) :
    ∃ fin opcode n rest, Known opcode ∧ n < 2 ^ 63 ∧ s = head fin opcode 0x80 n ++ rest := by
  match s with
  | [] | [_] => exact absurd (hshort rfl) (by simp)
  | b₀ :: b₁ :: s =>
      rw [parse] at hwrong hshort
      split_ifs at hwrong hshort with hbad
      · exact absurd rfl hwrong
      · simp only [not_or, not_not] at hbad
        obtain ⟨hrsv, hop, hmask⟩ := hbad
        obtain ⟨hb₀, -⟩ := first_byte_eq b₀ hrsv
        obtain ⟨hb₁, hlt⟩ := second_byte_eq b₁ hmask
        cases hlen : parse_len (b₁ &&& 0x7F) s with
        | ok r =>
            obtain ⟨n, rest⟩ := r
            obtain ⟨hn, hs, hbound⟩ := parse_len_ok hlt hlen
            refine ⟨decide (b₀ &&& 0x80 = 0x80), b₀ &&& 0x0F, n, rest, hop, hbound, ?_⟩
            rw [head, ← hn, ← hb₁, hs]
            simpa using hb₀
        | error e =>
            have hfields : parse_fields (b₀ &&& 0x80) (b₀ &&& 0x0F) (b₁ &&& 0x7F) s = .error e := by
              rw [parse_fields, hlen]
            rcases parse_len_error hlen with ⟨rfl, hlt⟩ | rfl
            · have := hshort hfields
              rw [List.length_cons, List.length_cons] at this
              omega
            · exact absurd hfields hwrong

/-- A frame at the front of the stream. -/
theorem parse_bytes (f : Frame) (rest : List UInt8) :
    parse (f.bytes ++ rest) = .ok ((f.hdr, f.payload), rest) := by
  have hsmall := f.small
  have hcontrol : ¬ (f.opcode ≥ OP_CLOSE ∧ (f.fin = false ∨ f.payload.length > 125)) := by
    rintro ⟨hop, h⟩
    obtain ⟨hfin, hlen⟩ := f.control hop
    rcases h with h | h
    · rw [hfin] at h
      cases h
    · omega
  have hmask : (f.mask ++ (unmask f.mask f.payload ++ rest)).take 4 = f.mask :=
    List.take_left' f.mask_length
  have hdrop : (f.mask ++ (unmask f.mask f.payload ++ rest)).drop 4 =
      unmask f.mask f.payload ++ rest := List.drop_left' f.mask_length
  have hpayload : (unmask f.mask f.payload ++ rest).take f.payload.length =
      unmask f.mask f.payload := List.take_left' (unmask_length _ _)
  have hrest : (unmask f.mask f.payload ++ rest).drop f.payload.length = rest :=
    List.drop_left' (unmask_length _ _)
  have henough : ¬ (f.mask ++ (unmask f.mask f.payload ++ rest)).length < 4 + f.payload.length := by
    simp only [List.length_append, f.mask_length, unmask_length]
    omega
  rw [Frame.bytes, List.append_assoc, List.append_assoc,
    parse_header f.fin f.known (by unfold MAX_PAYLOAD at hsmall; omega), parse_body,
    if_neg hcontrol, if_neg (Nat.not_lt.mpr hsmall), if_neg henough, ← List.drop_drop, hmask, hdrop,
    hpayload, hrest, unmask_unmask]
  rfl

/-- **The parser accepts exactly the streams that begin with a frame**, and returns that frame. -/
theorem parse_ok {s rest : List UInt8} {x : FrameHdr × List UInt8} :
    parse s = .ok (x, rest) ↔ ∃ f : Frame, x = (f.hdr, f.payload) ∧ s = f.bytes ++ rest := by
  constructor
  · intro h
    obtain ⟨fin, opcode, n, s, hop, hn, rfl⟩ :=
      header_of_parse (s := s) (by rw [h]; simp) (by rw [h]; simp)
    rw [parse_header fin hop hn, parse_body] at h
    have hcontrol : ¬ (opcode ≥ OP_CLOSE ∧ (fin = false ∨ n > 125)) := by
      intro hc
      rw [if_pos hc] at h
      cases h
    rw [if_neg hcontrol] at h
    have hbig : ¬ n > MAX_PAYLOAD := by
      intro hb
      rw [if_pos hb] at h
      cases h
    rw [if_neg hbig] at h
    have henough : ¬ s.length < 4 + n := by
      intro hs
      rw [if_pos hs] at h
      cases h
    rw [if_neg henough] at h
    injection h with h
    injection h with hx hrest
    have hmask : (s.take 4).length = 4 := by rw [List.length_take]; omega
    obtain ⟨payload, hp⟩ : ∃ p, p = unmask (s.take 4) ((s.drop 4).take n) := ⟨_, rfl⟩
    have hlen : payload.length = n := by
      rw [hp, unmask_length, List.length_take, List.length_drop]
      omega
    have hmasked : unmask (s.take 4) payload = (s.drop 4).take n := by rw [hp, unmask_unmask]
    have hfin : opcode ≥ OP_CLOSE → fin = true ∧ payload.length ≤ 125 := by
      intro hclose
      simp only [not_and, not_or, Nat.not_lt] at hcontrol
      obtain ⟨hfin, hle⟩ := hcontrol hclose
      exact ⟨by simpa using hfin, by rw [hlen]; exact hle⟩
    subst hlen
    refine ⟨⟨fin, opcode, s.take 4, payload, hop, hfin, by omega, hmask⟩, ?_, ?_⟩
    · rw [← hx, ← hp]
      rfl
    · show _ = head fin opcode 0x80 payload.length ++ s.take 4 ++ unmask (s.take 4) payload ++ rest
      rw [hmasked, ← hrest, ← List.drop_drop, List.append_assoc, List.append_assoc,
        List.take_append_drop, List.take_append_drop]
  · rintro ⟨f, rfl, rfl⟩
    exact parse_bytes f rest

theorem begins_iff {s : List UInt8} : Begins s ↔ ∃ x rest, parse s = .ok (x, rest) := by
  constructor
  · rintro ⟨f, rest, rfl⟩
    exact ⟨_, rest, parse_bytes f rest⟩
  · rintro ⟨x, rest, h⟩
    obtain ⟨f, -, hs⟩ := parse_ok.mp h
    exact ⟨f, rest, hs⟩

/-- A length that is there does not change with what follows. -/
theorem parse_len_append {n : UInt8} {s : List UInt8} (more : List UInt8) :
    (∀ v rest, parse_len n s = .ok (v, rest) → parse_len n (s ++ more) = .ok (v, rest ++ more)) ∧
      ∀ code, parse_len n s = .error (.refused code) →
        parse_len n (s ++ more) = .error (.refused code) := by
  have htake {k : Nat} (hk : ¬ s.length < k) :
      ¬ (s ++ more).length < k ∧ (s ++ more).take k = s.take k ∧
        (s ++ more).drop k = s.drop k ++ more := by
    refine ⟨by rw [List.length_append]; omega, ?_, ?_⟩
    · exact List.take_append_of_le_length (Nat.le_of_not_lt hk)
    · exact List.drop_append_of_le_length (Nat.le_of_not_lt hk)
  unfold parse_len
  by_cases h126 : n = 126
  · by_cases hshort : s.length < 2
    · simp [h126, hshort]
    · obtain ⟨hlen, ht, hd⟩ := htake hshort
      rw [if_pos h126, if_pos h126, if_neg hshort, if_neg hlen, ht, hd]
      split_ifs <;> simp
  · by_cases h127 : n = 127
    · by_cases hshort : s.length < 8
      · simp [h127, hshort]
      · obtain ⟨hlen, ht, hd⟩ := htake hshort
        rw [if_neg h126, if_neg h126, if_pos h127, if_pos h127, if_neg hshort, if_neg hlen, ht, hd]
        split_ifs <;> simp
    · simp [h126, h127]

/-- What is refused stays refused, whatever follows. -/
theorem parse_refused_append {s : List UInt8} {code : Int} (h : parse s = .error (.refused code))
    (more : List UInt8) : parse (s ++ more) = .error (.refused code) := by
  match s, h with
  | b₀ :: b₁ :: s, h =>
      rw [List.cons_append, List.cons_append, parse]
      rw [parse] at h
      split_ifs at h ⊢ with hbad
      · exact h
      · unfold parse_fields at h ⊢
        cases hlen : parse_len (b₁ &&& 0x7F) s with
        | error e =>
            rw [hlen] at h
            injection h with h
            subst h
            rw [(parse_len_append more).2 code hlen]
        | ok r =>
            obtain ⟨n, rest⟩ := r
            rw [hlen] at h
            rw [(parse_len_append more).1 n rest hlen]
            dsimp only at h ⊢
            by_cases hcontrol : b₀ &&& 0x0F ≥ OP_CLOSE ∧ (b₀ &&& 0x80 = 0 ∨ n > 125)
            · rw [if_pos hcontrol] at h ⊢
              exact h
            by_cases hbig : n > MAX_PAYLOAD
            · rw [if_neg hcontrol, if_pos hbig] at h ⊢
              exact h
            rw [if_neg hcontrol, if_neg hbig] at h
            split_ifs at h
            cases h

/-- **Nothing is refused that could become a frame.** -/
theorem refused_hopeless {s : List UInt8} {code : Int} (h : parse s = .error (.refused code)) :
    Hopeless s := by
  intro more hbegins
  obtain ⟨x, rest, hok⟩ := begins_iff.mp hbegins
  rw [parse_refused_append h more] at hok
  cases hok

/-- **What cannot become a frame is refused**, when the header is there. -/
theorem hopeless_refused {s : List UInt8} (h : Hopeless s) (hlen : 10 ≤ s.length) :
    ∃ code, parse s = .error (.refused code) := by
  match hs : parse s with
  | .error (.refused code) => exact ⟨code, rfl⟩
  | .ok (x, rest) =>
      have hbegins : Begins s := begins_iff.mpr ⟨x, rest, hs⟩
      rw [← List.append_nil s] at hbegins
      exact absurd hbegins (h [])
  | .error .short =>
      -- zeros complete the frame
      obtain ⟨fin, opcode, n, rest, hop, hn, rfl⟩ :=
        header_of_parse (s := s) (by rw [hs]; simp) (fun _ => hlen)
      refine absurd (begins_iff.mpr ?_) (h (List.replicate (4 + n) 0))
      have henough : ¬ (rest ++ List.replicate (4 + n) (0 : UInt8)).length < 4 + n := by
        rw [List.length_append, List.length_replicate]
        omega
      rw [parse_header fin hop hn, parse_body] at hs
      rw [List.append_assoc, parse_header fin hop hn, parse_body]
      by_cases hcontrol : opcode ≥ OP_CLOSE ∧ (fin = false ∨ n > 125)
      · rw [if_pos hcontrol] at hs
        cases hs
      by_cases hbig : n > MAX_PAYLOAD
      · rw [if_neg hcontrol, if_pos hbig] at hs
        cases hs
      rw [if_neg hcontrol, if_neg hbig, if_neg henough]
      exact ⟨_, _, rfl⟩

/-- **Too big** is a data frame whose header announces more than the limit. -/
theorem too_big_iff {s : List UInt8} :
    parse s = .error (.refused CLOSE_TOO_BIG) ↔
      ∃ fin opcode n rest, opcode ≤ OP_BIN ∧ MAX_PAYLOAD < n ∧ n < 2 ^ 63 ∧
        s = head fin opcode 0x80 n ++ rest := by
  constructor
  · intro h
    obtain ⟨fin, opcode, n, rest, hop, hn, rfl⟩ :=
      header_of_parse (s := s) (by rw [h]; decide) (by rw [h]; simp)
    rw [parse_header fin hop hn, parse_body] at h
    by_cases hcontrol : opcode ≥ OP_CLOSE ∧ (fin = false ∨ n > 125)
    · rw [if_pos hcontrol] at h
      cases h
    by_cases hbig : n > MAX_PAYLOAD
    · refine ⟨fin, opcode, n, rest, ?_, hbig, hn, rfl⟩
      rcases hop with hop | ⟨hclose, -⟩
      · exact hop
      · exact absurd ⟨hclose, Or.inr (by unfold MAX_PAYLOAD at hbig; omega)⟩ hcontrol
    · rw [if_neg hcontrol, if_neg hbig] at h
      split_ifs at h
      cases h
  · rintro ⟨fin, opcode, n, rest, hop, hbig, hn, rfl⟩
    have hdata : ¬ opcode ≥ OP_CLOSE := by
      intro hclose
      exact absurd (UInt8.le_trans hclose hop) (by decide)
    rw [parse_header fin (Or.inl hop) hn, parse_body, if_neg (fun h => hdata h.1), if_pos hbig]

theorem refused_code {s : List UInt8} {code : Int} (h : parse s = .error (.refused code)) :
    code = CLOSE_PROTOCOL ∨ code = CLOSE_TOO_BIG := by
  by_cases hcode : code = CLOSE_PROTOCOL
  · exact Or.inl hcode
  · obtain ⟨fin, opcode, n, rest, hop, hn, rfl⟩ := header_of_parse (s := s)
      (by rw [h]; intro e; injection e with e; injection e with e; exact hcode e) (by rw [h]; simp)
    rw [parse_header fin hop hn, parse_body] at h
    split_ifs at h
    all_goals first | (injection h with h; injection h with h; simp [← h]) | cases h

/-- **`recv_frame`**, for every stream however it arrives: it returns a frame exactly when the stream
    begins with one, and takes that frame off it; it refuses a stream only when no further bytes
    could make a frame of it; and what cannot become a frame it refuses, once the header is there. -/
theorem recv_frame_spec (c : Conn) :
    ∃ r c', recv_frame c = (r, c') ∧ Reads c c' ∧
      (∀ x, r = .ok x ↔ ∃ f : Frame, x = (f.hdr, f.payload) ∧ c.stream = f.bytes ++ c'.stream) ∧
      ∀ rc, r = .error rc →
        (rc = CLOSE_PROTOCOL ∨ rc = CLOSE_TOO_BIG) ∧ Hopeless c.stream ∨
          rc = short_code c ∧ ¬ Begins c.stream ∧ (10 ≤ c.stream.length → ¬ Hopeless c.stream) := by
  have hagrees := recv_frame_stream c
  generalize recv_frame c = res at hagrees
  generalize hp : parse c.stream = p at hagrees
  cases hagrees with
  | @ok a b c' hc hab =>
      subst hab
      refine ⟨_, c', rfl, hc, fun x => ?_, fun rc hrc => by cases hrc⟩
      rw [← parse_ok, hp]
      simp
  | @short c' hc =>
      have hnot : ¬ Begins c.stream := by
        rw [begins_iff, hp]
        simp
      refine ⟨_, c', rfl, hc, fun x => ?_, fun rc hrc => Or.inr ⟨?_, hnot, fun hlen hopeless => ?_⟩⟩
      · rw [← parse_ok, hp]
        simp
      · injection hrc with hrc
        exact hrc.symm
      · obtain ⟨code, hcode⟩ := hopeless_refused hopeless hlen
        rw [hp] at hcode
        cases hcode
  | @refused c' code hc =>
      refine ⟨_, c', rfl, hc, fun x => ?_, fun rc hrc => Or.inl ⟨?_, refused_hopeless hp⟩⟩
      · rw [← parse_ok, hp]
        simp
      · injection hrc with hrc
        rw [← hrc]
        exact refused_code hp

/-! ## §7. Sending. -/

namespace Line

theorem send_send (l : Line) (a b : List UInt8) : (l.send a).send b = l.send (a ++ b) := by
  simp only [send, List.append_assoc, List.take_append, List.length_append, Nat.sub_sub]

/-- What follows the bytes that did not fit is not handed over. -/
theorem send_full {l : Line} {a : List UInt8} (h : l.room < a.length) (b : List UInt8) :
    l.send (a ++ b) = l.send a := by
  have htake : (a ++ b).take l.room = a.take l.room :=
    List.take_append_of_le_length (Nat.le_of_lt h)
  have hroom : l.room - (a ++ b).length = l.room - a.length := by
    rw [List.length_append]
    omega
  rw [send, htake, hroom, send]

theorem send_nil (l : Line) : l.send [] = l := by
  simp only [send, List.take_nil, List.append_nil, List.length_nil, Nat.sub_zero]

end Line

theorem len_64_eq {n : Nat} (h : n < 2 ^ 64) : len_64 (UInt64.ofNat n) = be 8 n := by
  have hval : (UInt64.ofNat n).toNat = n := by
    rw [UInt64.toNat_ofNat']
    omega
  have hbyte (i : UInt64) (k : Nat) (hi : (i * 8).toNat % 64 = k) :
      (UInt64.ofNat n >>> (i * 8)).toUInt8 = UInt8.ofNat (n / 2 ^ k) := by
    rw [← UInt8.toNat_inj, UInt64.toNat_toUInt8, UInt64.toNat_shiftRight, hval, hi,
      Nat.shiftRight_eq_div_pow, UInt8.toNat_ofNat']
  have hbe : be 8 n = ([56, 48, 40, 32, 24, 16, 8, 0] : List Nat).map fun k => UInt8.ofNat (n / 2 ^ k) := by
    simp [be, Nat.div_div_eq_div_mul]
  rw [hbe, len_64]
  simp only [List.map_cons, List.map_nil]
  rw [hbyte 7 56 rfl, hbyte 6 48 rfl, hbyte 5 40 rfl, hbyte 4 32 rfl, hbyte 3 24 rfl, hbyte 2 16 rfl,
    hbyte 1 8 rfl, hbyte 0 0 rfl]

/-- The header that `send_frame` writes. -/
theorem server_header (opcode : UInt8) {n : Nat} (h : n < 2 ^ 64) :
    (if n < 126 then [0x80 ||| opcode] ++ [UInt8.ofNat n]
      else if n ≤ 0xFFFF then [0x80 ||| opcode] ++ [126, UInt8.ofNat (n >>> 8), UInt8.ofNat n]
      else [0x80 ||| opcode] ++ 127 :: len_64 (UInt64.ofNat n)) = head true opcode 0 n := by
  unfold head len7 len_ext
  rw [if_pos rfl]
  by_cases hsmall : n < 126
  · rw [if_pos hsmall, if_pos hsmall, if_pos hsmall, UInt8.zero_or]
    rfl
  · by_cases hmid : n ≤ 0xFFFF
    · rw [if_neg hsmall, if_pos hmid, if_neg hsmall, if_pos hmid, if_neg hsmall, if_pos hmid,
        Nat.shiftRight_eq_div_pow]
      rfl
    · rw [if_neg hsmall, if_neg hmid, if_neg hsmall, if_neg hmid, if_neg hsmall, if_neg hmid,
        len_64_eq h]
      rfl

/-- **`send_frame`** hands over the frame, or as much of it as the peer still takes. -/
theorem send_frame_spec (fd : Wire) (opcode : UInt8) (payload : List UInt8)
    (h : payload.length < 2 ^ 64) :
    ∃ fd', send_frame fd opcode payload =
        (if (server_bytes opcode payload).length ≤ fd.room then 0 else -1, fd') ∧
      fd'.line = fd.line.send (server_bytes opcode payload) := by
  unfold send_frame server_bytes
  dsimp only
  rw [server_header opcode h]
  obtain ⟨hdr, hhdr⟩ : ∃ hdr, hdr = head true opcode 0 payload.length := ⟨_, rfl⟩
  rw [← hhdr, List.length_append]
  obtain ⟨fd', hwrite, hline⟩ := write_spec fd hdr
  have hroom : fd'.room = fd.room - hdr.length := congrArg Line.room hline
  rw [hwrite]
  dsimp only
  by_cases hfit : hdr.length ≤ fd.room
  · rw [if_pos hfit, if_neg (by omega)]
    by_cases hempty : payload.length = 0
    · have hnil : payload = [] := List.eq_nil_of_length_eq_zero hempty
      refine ⟨fd', ?_, ?_⟩
      · rw [if_neg (by omega), if_pos (by omega)]
      · rw [hline, hnil, List.append_nil]
    · obtain ⟨fd'', hwrite', hline'⟩ := write_spec fd' payload
      refine ⟨fd'', ?_, ?_⟩
      · rw [if_pos hempty, hwrite']
        dsimp only
        by_cases hall : payload.length ≤ fd'.room
        · rw [if_pos hall, if_neg (by omega), if_pos (by omega)]
        · rw [if_neg hall, if_pos (by decide), if_neg (by omega)]
      · rw [hline', hline, Line.send_send]
  · refine ⟨fd', ?_, ?_⟩
    · rw [if_neg hfit, if_pos (by decide), if_neg (by omega)]
    · rw [hline]
      exact (Line.send_full (l := fd.line) (Nat.lt_of_not_le hfit) payload).symm

end CFiber.Ws
