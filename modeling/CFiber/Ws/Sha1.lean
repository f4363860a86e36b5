/-
  CFiber.Ws.Sha1 — SHA-1 as the WebSocket handshake computes it (`examples/ws_echo/ws_echo.c`).

  `ws_sha1` takes the message in pieces that fill up a 64-byte buffer, compresses the buffer when it
  is full, and pads in place: the padding shares the last block with the message, or needs one more.
  `sha1` is the standard's definition: pad the whole message, cut it into blocks, fold the
  compression over them; there the words of the schedule are a recursion and the three functions of
  a round are sums modulo two.

    • `sha1_block_spec` — the block function is the standard's compression;
    • `ws_sha1_spec`    — the streamed digest is the standard's, for every message.
-/
import CFiber.Base.Blocks

namespace CFiber.Ws

open CFiber.Base

/-! ## §1. The code. -/

/-- `uint32_t h[5]`. -/
@[ext]
structure Words where
  a : UInt32
  b : UInt32
  c : UInt32
  d : UInt32
  e : UInt32
  deriving DecidableEq, Repr

/-- `sha1_t`; `buf` holds the first `n` bytes of the buffer. -/
structure Sha1 where
  h : Words
  len : UInt64
  buf : List UInt8
  deriving DecidableEq, Repr

def rol (v : UInt32) (c : UInt32) : UInt32 := v <<< c ||| v >>> (32 - c)

def load_be32 (p : List UInt8) : UInt32 :=
  (p.getD 0 0).toUInt32 <<< 24 ||| (p.getD 1 0).toUInt32 <<< 16 |||
    (p.getD 2 0).toUInt32 <<< 8 ||| (p.getD 3 0).toUInt32

def store_be32 (v : UInt32) : List UInt8 :=
  [(v >>> 24).toUInt8, (v >>> 16).toUInt8, (v >>> 8).toUInt8, v.toUInt8]

/-- `w[i]` from the words before it, `i` being their number. -/
def next_word (w : List UInt32) : UInt32 :=
  rol (w.getD (w.length - 3) 0 ^^^ w.getD (w.length - 8) 0 ^^^ w.getD (w.length - 14) 0 ^^^
    w.getD (w.length - 16) 0) 1

/-- `n` more words. -/
def more_words : Nat → List UInt32 → List UInt32
  | 0, w => w
  | n + 1, w => more_words n (w ++ [next_word w])

/-- `uint32_t w[80]`. -/
def words (p : List UInt8) : List UInt32 :=
  more_words 64 ((List.range 16).map fun i => load_be32 (p.drop (i * 4)))

/-- One turn of the loop over the 80 words. -/
def round (w : List UInt32) (s : Words) (i : Nat) : Words :=
  let (f, k) :=
    if i < 20 then (s.b &&& s.c ||| ~~~s.b &&& s.d, 0x5A827999)
    else if i < 40 then (s.b ^^^ s.c ^^^ s.d, 0x6ED9EBA1)
    else if i < 60 then (s.b &&& s.c ||| s.b &&& s.d ||| s.c &&& s.d, 0x8F1BBCDC)
    else (s.b ^^^ s.c ^^^ s.d, 0xCA62C1D6)
  let t := rol s.a 5 + f + s.e + k + w.getD i 0
  { e := s.d, d := s.c, c := rol s.b 30, b := s.a, a := t }

def sha1_block (h : Words) (p : List UInt8) : Words :=
  let s := (List.range 80).foldl (round (words p)) h
  { a := h.a + s.a, b := h.b + s.b, c := h.c + s.c, d := h.d + s.d, e := h.e + s.e }

/-- The buffer is full: it is compressed and emptied. -/
def flush (s : Sha1) : Sha1 := { s with h := sha1_block s.h s.buf, buf := [] }

/-- `while (len)`, in at most `fuel` turns; each takes a byte at least. -/
def take_in : (fuel : Nat) → Sha1 → List UInt8 → Sha1
  | 0, s, _ => s
  | fuel + 1, s, data =>
    if data.length = 0 then s
    else
      let take := min (64 - s.buf.length) data.length
      let s := { s with buf := s.buf ++ data.take take }
      take_in fuel (if s.buf.length = 64 then flush s else s) (data.drop take)

/-- `while (s.n < to) s.buf[s.n++] = 0;`. -/
def fill (s : Sha1) (n : Nat) : Sha1 :=
  { s with buf := s.buf ++ List.replicate (n - s.buf.length) 0 }

/-- The message's length in bits, most significant byte first. -/
def store_be64 (v : UInt64) : List UInt8 :=
  ([7, 6, 5, 4, 3, 2, 1, 0] : List UInt64).map fun i => (v >>> (i * 8)).toUInt8

/-- Pad: 0x80, zeros, then the 64-bit bit length. -/
def finish (s : Sha1) : Sha1 :=
  let s := { s with buf := s.buf ++ [0x80] }
  let s := if s.buf.length > 56 then flush (fill s 64) else s
  let s := fill s 56
  flush { s with buf := s.buf ++ store_be64 s.len }

def H0 : Words := ⟨0x67452301, 0xEFCDAB89, 0x98BADCFE, 0x10325476, 0xC3D2E1F0⟩

def digest (h : Words) : List UInt8 :=
  store_be32 h.a ++ store_be32 h.b ++ store_be32 h.c ++ store_be32 h.d ++ store_be32 h.e

def ws_sha1 (data : List UInt8) : List UInt8 :=
  let s : Sha1 := ⟨H0, UInt64.ofNat data.length * 8, []⟩
  digest (finish (take_in data.length s data)).h

/-! ## §2. The standard. -/

/-- The schedule of a block `m` of sixteen words. -/
def W (m : Nat → UInt32) (t : Nat) : UInt32 :=
  if t < 16 then m t
  else rol (W m (t - 3) ^^^ W m (t - 8) ^^^ W m (t - 14) ^^^ W m (t - 16)) 1

def Ch (x y z : UInt32) : UInt32 := x &&& y ^^^ ~~~x &&& z

def Parity (x y z : UInt32) : UInt32 := x ^^^ y ^^^ z

def Maj (x y z : UInt32) : UInt32 := x &&& y ^^^ x &&& z ^^^ y &&& z

/-- The function and the constant of round `t`. -/
def step_fn (t : Nat) : (UInt32 → UInt32 → UInt32 → UInt32) × UInt32 :=
  if t < 20 then (Ch, 0x5A827999)
  else if t < 40 then (Parity, 0x6ED9EBA1)
  else if t < 60 then (Maj, 0x8F1BBCDC)
  else (Parity, 0xCA62C1D6)

/-- The working variables after `t` rounds. -/
def rounds (m : Nat → UInt32) (h : Words) : Nat → Words
  | 0 => h
  | t + 1 =>
    let s := rounds m h t
    { a := rol s.a 5 + (step_fn t).1 s.b s.c s.d + s.e + (step_fn t).2 + W m t
      b := s.a
      c := rol s.b 30
      d := s.c
      e := s.d }

/-- The words of a block. -/
def block_words (p : List UInt8) (t : Nat) : UInt32 := load_be32 (p.drop (t * 4))

def compress (h : Words) (p : List UInt8) : Words :=
  let s := rounds (block_words p) h 80
  ⟨s.a + h.a, s.b + h.b, s.c + h.c, s.d + h.d, s.e + h.e⟩

/-- The padding of a message of `n` bytes. -/
def padding (n : Nat) : List UInt8 :=
  0x80 :: (List.replicate ((119 - n % 64) % 64) 0 ++ store_be64 (UInt64.ofNat (8 * n)))

def sha1 (data : List UInt8) : List UInt8 :=
  digest ((blocks 64 (data ++ padding data.length)).foldl compress H0)

/-! ## §3. The block function. -/

/-- Where no bit is set twice, `or` is the sum modulo two. -/
theorem or_eq_xor {x y : UInt32} (h : ∀ i, ¬ (x.toBitVec.getLsbD i = true ∧ y.toBitVec.getLsbD i = true)) :
    x ||| y = x ^^^ y := by
  apply UInt32.toBitVec_inj.mp
  apply BitVec.eq_of_getLsbD_eq
  intro i _
  rw [UInt32.toBitVec_or, UInt32.toBitVec_xor, BitVec.getLsbD_or, BitVec.getLsbD_xor]
  have hi := h i
  cases hx : x.toBitVec.getLsbD i <;> cases hy : y.toBitVec.getLsbD i <;> simp_all

theorem ch_eq (x y z : UInt32) : x &&& y ||| ~~~x &&& z = Ch x y z := by
  apply or_eq_xor
  rintro i ⟨hy, hz⟩
  rw [UInt32.toBitVec_and, BitVec.getLsbD_and] at hy hz
  rw [UInt32.toBitVec_not, BitVec.getLsbD_not] at hz
  cases hx : x.toBitVec.getLsbD i <;> simp_all

theorem maj_eq (x y z : UInt32) : x &&& y ||| x &&& z ||| y &&& z = Maj x y z := by
  apply UInt32.toBitVec_inj.mp
  apply BitVec.eq_of_getLsbD_eq
  intro i _
  unfold Maj
  simp only [UInt32.toBitVec_or, UInt32.toBitVec_xor, UInt32.toBitVec_and, BitVec.getLsbD_or,
    BitVec.getLsbD_xor, BitVec.getLsbD_and]
  cases x.toBitVec.getLsbD i <;> cases y.toBitVec.getLsbD i <;> cases z.toBitVec.getLsbD i <;> rfl

/-- The words so far are the schedule's. -/
def Scheduled (m : Nat → UInt32) (w : List UInt32) : Prop := ∀ t < w.length, w.getD t 0 = W m t

theorem Scheduled.next {m : Nat → UInt32} {w : List UInt32} (h : Scheduled m w)
    (hlen : 16 ≤ w.length) : Scheduled m (w ++ [next_word w]) := by
  intro t ht
  rw [List.length_append, List.length_singleton] at ht
  by_cases hlt : t < w.length
  · rw [List.getD_eq_getElem?_getD, List.getElem?_append_left hlt, ← List.getD_eq_getElem?_getD]
    exact h t hlt
  · obtain rfl : t = w.length := by omega
    have hlast : (w ++ [next_word w]).getD w.length 0 = next_word w := by simp
    rw [hlast, W, if_neg (by omega), next_word, h _ (by omega), h _ (by omega), h _ (by omega),
      h _ (by omega)]

/-- The loop over the schedule, by induction on the words still to come. -/
theorem Scheduled.more {m : Nat → UInt32} (n : Nat) :
    ∀ {w : List UInt32}, Scheduled m w → 16 ≤ w.length →
      Scheduled m (more_words n w) ∧ (more_words n w).length = w.length + n := by
  induction n with
  | zero => exact fun h _ => ⟨h, rfl⟩
  | succ n ih =>
      intro w h hlen
      have hgrow : (w ++ [next_word w]).length = w.length + 1 := by simp
      obtain ⟨hs, hl⟩ := ih (h.next hlen) (by omega)
      refine ⟨hs, ?_⟩
      show (more_words n (w ++ [next_word w])).length = w.length + (n + 1)
      omega

theorem words_spec (p : List UInt8) : ∀ t < 80, (words p).getD t 0 = W (block_words p) t := by
  have hstart : Scheduled (block_words p) ((List.range 16).map fun i => load_be32 (p.drop (i * 4))) := by
    intro t ht
    rw [List.length_map, List.length_range] at ht
    rw [W, if_pos ht]
    simp [ht, block_words]
  obtain ⟨hs, hlen⟩ := hstart.more 64 (by simp)
  intro t ht
  apply hs
  rw [hlen]
  simpa using ht

/-- One turn of the loop is one round. -/
theorem round_spec {p : List UInt8} {t : Nat} (ht : t < 80) (h : Words) :
    round (words p) (rounds (block_words p) h t) t = rounds (block_words p) h (t + 1) := by
  unfold round
  rw [words_spec p t ht]
  show _ = Words.mk _ _ _ _ _
  unfold step_fn
  split_ifs
  · rw [ch_eq]
  · rfl
  · rw [maj_eq]
  · rfl

theorem rounds_spec (p : List UInt8) (h : Words) (n : Nat) (hn : n ≤ 80) :
    (List.range n).foldl (round (words p)) h = rounds (block_words p) h n := by
  induction n with
  | zero => rfl
  | succ n ih =>
      rw [List.range_succ, List.foldl_append, ih (by omega)]
      exact round_spec (by omega) h

/-- **The block function** is the standard's compression. -/
theorem sha1_block_spec : sha1_block = compress := by
  funext h p
  unfold sha1_block compress
  rw [rounds_spec p h 80 (Nat.le_refl 80)]
  simp only [UInt32.add_comm]

/-! ## §4. The message, piece by piece. -/

/-- The hash state and the buffer, as a block machine. -/
def Sha1.machine (s : Sha1) : Words × List UInt8 := (s.h, s.buf)

theorem machine_mk (h : Words) (len : UInt64) (buf : List UInt8) :
    (Sha1.mk h len buf).machine = (h, buf) := rfl

theorem machine_fst (s : Sha1) : s.machine.1 = s.h := rfl

theorem flush_eq (s : Sha1) : flush s = ⟨sha1_block s.h s.buf, s.len, []⟩ := rfl

-- `rfl` would evaluate the eighty rounds here
theorem flush_machine (s : Sha1) : (flush s).machine = (sha1_block s.h s.buf, []) := by
  rw [flush_eq, machine_mk]

theorem flush_len (s : Sha1) : (flush s).len = s.len := by rw [flush_eq]

theorem flush_buf (s : Sha1) : (flush s).buf = [] := by rw [flush_eq]

/-- Bytes that go through the buffer. -/
def absorbed (s : Words × List UInt8) (data : List UInt8) : Words × List UInt8 :=
  data.foldl (push sha1_block 64) s

theorem absorbed_split (s : Words × List UInt8) (data : List UInt8) (n : Nat) :
    absorbed s data = absorbed (absorbed s (data.take n)) (data.drop n) := by
  unfold absorbed
  rw [← List.foldl_append, List.take_append_drop]

/-- One turn takes a piece in. -/
theorem take_in_turn (fuel : Nat) {s : Sha1} {data : List UInt8} (hs : s.buf.length < 64)
    (hd : data.length ≠ 0) :
    ∃ n s', 0 < n ∧ n ≤ data.length ∧ take_in (fuel + 1) s data = take_in fuel s' (data.drop n) ∧
      s'.machine = absorbed s.machine (data.take n) ∧ s'.buf.length < 64 ∧ s'.len = s.len := by
  obtain ⟨n, hn⟩ : ∃ n, n = min (64 - s.buf.length) data.length := ⟨_, rfl⟩
  have hlen : (data.take n).length = n := by
    rw [List.length_take]
    omega
  have hgrow : (s.buf ++ data.take n).length = s.buf.length + n := by
    rw [List.length_append, hlen]
  have hturn : take_in (fuel + 1) s data =
      take_in fuel (if (s.buf ++ data.take n).length = 64 then flush { s with buf := s.buf ++ data.take n }
        else { s with buf := s.buf ++ data.take n }) (data.drop n) := by
    rw [hn]
    exact if_neg hd
  by_cases hfull : s.buf.length + n = 64
  · -- the piece fills the buffer
    have hne : data.take n ≠ [] := by
      intro e
      rw [e, List.length_nil] at hlen
      omega
    have hpiece : absorbed s.machine (data.take n) = (sha1_block s.h (s.buf ++ data.take n), []) :=
      push_full sha1_block s.h hne (by rw [hlen]; exact hfull)
    refine ⟨n, flush { s with buf := s.buf ++ data.take n }, by omega, by omega, ?_, ?_, ?_,
      flush_len _⟩
    · rw [hturn, if_pos (hgrow.trans hfull)]
    · rw [hpiece, flush_machine]
    · rw [flush_buf, List.length_nil]
      omega
  · -- the message ends in it
    have hshort : s.buf.length + (data.take n).length < 64 := by
      rw [hlen]
      omega
    have hpiece : absorbed s.machine (data.take n) = (s.h, s.buf ++ data.take n) :=
      push_short sha1_block s.h (data.take n) s.buf hshort
    refine ⟨n, { s with buf := s.buf ++ data.take n }, by omega, by omega, ?_, ?_, ?_, rfl⟩
    · rw [hturn, if_neg (by rw [hgrow]; exact hfull)]
    · rw [hpiece]
      rfl
    · show (s.buf ++ data.take n).length < 64
      omega

/-- **The loop over the message**, by induction on its turns: the pieces it takes do not show. -/
theorem take_in_spec (fuel : Nat) :
    ∀ {s : Sha1} (data : List UInt8), s.buf.length < 64 → data.length ≤ fuel →
      (take_in fuel s data).machine = absorbed s.machine data ∧
        (take_in fuel s data).buf.length < 64 ∧ (take_in fuel s data).len = s.len := by
  induction fuel with
  | zero =>
      intro s data hs hd
      obtain rfl : data = [] := List.eq_nil_of_length_eq_zero (Nat.le_zero.mp hd)
      exact ⟨rfl, hs, rfl⟩
  | succ fuel ih =>
      intro s data hs hd
      by_cases hnil : data.length = 0
      · obtain rfl : data = [] := List.eq_nil_of_length_eq_zero hnil
        exact ⟨rfl, hs, rfl⟩
      · obtain ⟨n, s', hpos, hle, hturn, hm, hs', hl⟩ := take_in_turn fuel hs hnil
        have hrest : (data.drop n).length ≤ fuel := by
          rw [List.length_drop]
          omega
        obtain ⟨hmachine, hbuf, hlen⟩ := ih (data.drop n) hs' hrest
        rw [hturn, absorbed_split s.machine data n, ← hm]
        exact ⟨hmachine, hbuf, hlen.trans hl⟩

/-! ## §5. The padding. -/

theorem store_be64_length (v : UInt64) : (store_be64 v).length = 8 := rfl

/-- Bytes that fill the buffer exactly are compressed. -/
theorem flush_full {h : Words} {len : UInt64} {buf : List UInt8} (data : List UInt8)
    (hne : data ≠ []) (hlen : buf.length + data.length = 64) :
    (flush ⟨h, len, buf ++ data⟩).machine = absorbed (h, buf) data := by
  rw [flush_machine]
  exact (push_full sha1_block h hne hlen).symm

theorem absorbed_append (s : Words × List UInt8) (data data' : List UInt8) :
    absorbed s (data ++ data') = absorbed (absorbed s data) data' := List.foldl_append

/-- The length fits into the block that is open. -/
theorem finish_one (h : Words) (len : UInt64) {buf : List UInt8} (hn : buf.length < 56) :
    finish ⟨h, len, buf⟩ =
      flush ⟨h, len, buf ++ 0x80 :: (List.replicate (55 - buf.length) 0 ++ store_be64 len)⟩ := by
  have hlen : (buf ++ [0x80]).length = buf.length + 1 := by simp
  have hzeros : 56 - (buf.length + 1) = 55 - buf.length := by omega
  have hlate : ¬ (buf ++ [0x80]).length > 56 := by omega
  unfold finish
  dsimp only
  rw [if_neg hlate, fill]
  dsimp only
  rw [hlen, hzeros, List.append_assoc, List.append_assoc]
  rfl

/-- The length needs one more block. -/
theorem finish_two (h : Words) (len : UInt64) {buf : List UInt8} (hn : 56 ≤ buf.length) :
    finish ⟨h, len, buf⟩ =
      flush ⟨(flush ⟨h, len, buf ++ 0x80 :: List.replicate (63 - buf.length) 0⟩).h, len,
        [] ++ (List.replicate 56 0 ++ store_be64 len)⟩ := by
  have hlen : (buf ++ [0x80]).length = buf.length + 1 := by simp
  have hzeros : 64 - (buf.length + 1) = 63 - buf.length := by omega
  have hlate : (buf ++ [0x80]).length > 56 := by omega
  unfold finish
  dsimp only
  rw [if_pos hlate, fill, fill]
  dsimp only
  rw [hlen, hzeros, List.append_assoc, flush_buf, List.append_assoc]
  rfl

/-- **The padding in the buffer**: it ends this block, or the next. -/
theorem finish_spec {s : Sha1} (hs : s.buf.length < 64) :
    (finish s).machine = absorbed s.machine
      (0x80 :: (List.replicate ((119 - s.buf.length) % 64) 0 ++ store_be64 s.len)) := by
  obtain ⟨h, len, buf⟩ := s
  rw [machine_mk]
  change buf.length < 64 at hs
  show _ = absorbed (h, buf) (0x80 :: (List.replicate ((119 - buf.length) % 64) 0 ++ store_be64 len))
  by_cases hn : buf.length < 56
  · have hzeros : (119 - buf.length) % 64 = 55 - buf.length := by omega
    rw [finish_one h len hn, hzeros]
    apply flush_full _ (List.cons_ne_nil _ _)
    simp only [List.length_cons, List.length_append, List.length_replicate, store_be64_length]
    omega
  · -- zeros up to the end of this block, and 56 more in the next
    have hzeros : (119 - buf.length) % 64 = (63 - buf.length) + 56 := by omega
    have hfirst : (flush ⟨h, len, buf ++ 0x80 :: List.replicate (63 - buf.length) 0⟩).machine =
        absorbed (h, buf) (0x80 :: List.replicate (63 - buf.length) 0) := by
      apply flush_full _ (List.cons_ne_nil _ _)
      simp only [List.length_cons, List.length_replicate]
      omega
    have hstart : absorbed (h, buf) (0x80 :: List.replicate (63 - buf.length) 0) =
        ((flush ⟨h, len, buf ++ 0x80 :: List.replicate (63 - buf.length) 0⟩).h, []) := by
      rw [← hfirst, Sha1.machine, flush_buf]
    rw [finish_two h len (by omega), hzeros, List.replicate_add, List.append_assoc,
      ← List.cons_append, absorbed_append, hstart]
    apply flush_full
    · simp
    · simp [store_be64_length]

/-! ## §6. The digest. -/

theorem padding_length (n : Nat) : 64 ∣ n + (padding n).length := by
  have hlen : (padding n).length = (119 - n % 64) % 64 + 8 + 1 := by
    rw [padding, List.length_cons, List.length_append, List.length_replicate, store_be64_length]
  omega

/-- The bytes that end the message are those of its padding. -/
theorem finish_padding {s : Sha1} {n : Nat} (hbuf : s.buf.length = n % 64)
    (hlen : s.len = UInt64.ofNat (8 * n)) :
    (finish s).machine = absorbed s.machine (padding n) := by
  have hs : s.buf.length < 64 := by omega
  rw [finish_spec hs, hbuf, hlen]
  rfl

/-- The digest of `ws_sha1` is the standard's. -/
theorem ws_sha1_eq (data : List UInt8) : ws_sha1 data = sha1 data := by
  have hbits : UInt64.ofNat data.length * 8 = UInt64.ofNat (8 * data.length) := by
    rw [Nat.mul_comm, UInt64.ofNat_mul]
    rfl
  obtain ⟨s, hs⟩ : ∃ s, s = take_in data.length ⟨H0, UInt64.ofNat (8 * data.length), []⟩ data :=
    ⟨_, rfl⟩
  obtain ⟨hm, -, hlen⟩ := take_in_spec data.length
    (s := ⟨H0, UInt64.ofNat (8 * data.length), []⟩) data (by simp) (Nat.le_refl _)
  rw [← hs] at hm hlen
  change s.machine = absorbed (H0, []) data at hm
  -- the buffer has the end of the message
  have hbuf : s.buf.length = data.length % 64 := by
    have hrest := push_rest sha1_block data (H0, ([] : List UInt8)) (k := 64) (by simp)
    rw [List.length_nil, Nat.zero_add] at hrest
    rw [← hrest]
    exact congrArg (fun m => m.2.length) hm
  have hwhole : (finish s).machine =
      ((blocks 64 (data ++ padding data.length)).foldl sha1_block H0, []) := by
    rw [finish_padding hbuf hlen, hm, ← absorbed_append]
    apply push_blocks sha1_block (by omega)
    rw [List.length_append]
    exact padding_length data.length
  have hdigest : (finish s).h = (blocks 64 (data ++ padding data.length)).foldl compress H0 := by
    rw [← machine_fst, hwhole, sha1_block_spec]
  rw [sha1, ← hdigest, ws_sha1, hbits, ← hs]

theorem digest_length (h : Words) : (digest h).length = 20 := rfl

theorem sha1_length (data : List UInt8) : (sha1 data).length = 20 := by
  rw [sha1, digest_length]

/-- **SHA-1 in pieces**: for every message, the twenty bytes are the standard's.  (For a message of
    `2^61` bytes and more, which the standard does not admit, both take its length in bits modulo
    `2^64`.) -/
theorem ws_sha1_spec (data : List UInt8) : ws_sha1 data = sha1 data ∧ (ws_sha1 data).length = 20 :=
  ⟨ws_sha1_eq data, by rw [ws_sha1_eq, sha1_length]⟩

example : ws_sha1 [97, 98, 99] =
    [0xA9, 0x99, 0x3E, 0x36, 0x47, 0x06, 0x81, 0x6A, 0xBA, 0x3E, 0x25, 0x71, 0x78, 0x50, 0xC2, 0x6C,
      0x9C, 0xD0, 0xD8, 0x9D] := by decide +kernel

end CFiber.Ws
