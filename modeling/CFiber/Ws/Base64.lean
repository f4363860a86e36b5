/-
  CFiber.Ws.Base64 — base64 as the WebSocket handshake writes it (`examples/ws_echo/ws_echo.c`).

  `ws_base64` checks the room for the text and its NUL before it writes.  What it says is stated by a
  decoder that is strict: whole groups of four letters, padding in the last one only, and no bit set
  that the padding cuts off.

    • `decode_iff`     — the decoder accepts exactly the texts that the code writes;
    • `ws_base64_spec` — for every input and every capacity: the text and its NUL, or nothing.
-/
import Mathlib.Tactic.Ring

namespace CFiber.Ws

/-! ## §1. The code. -/

/-- A string literal's bytes, without the NUL. -/
def ascii (s : String) : List UInt8 := s.toList.map fun c => UInt8.ofNat c.toNat

/-- `static const char t[]`. -/
def ws_base64.t : List UInt8 := ascii "ABCDEFGHIJKLMNOPQRSTUVWXYZabcdefghijklmnopqrstuvwxyz0123456789+/"

/-- `'='`. -/
def pad : UInt8 := 61

def letter (v : UInt32) : UInt8 := ws_base64.t.getD v.toNat 0

/-- The letters for the bytes from `i` on. -/
def group (input : List UInt8) (i : Nat) : List UInt8 :=
  let n := (input.getD i 0).toUInt32 <<< 16
  let n := if i + 1 < input.length then n ||| (input.getD (i + 1) 0).toUInt32 <<< 8 else n
  let n := if i + 2 < input.length then n ||| (input.getD (i + 2) 0).toUInt32 else n
  [letter (n >>> 18 &&& 63),
    letter (n >>> 12 &&& 63),
    if i + 1 < input.length then letter (n >>> 6 &&& 63) else pad,
    if i + 2 < input.length then letter (n &&& 63) else pad]

/-- `for (size_t i = 0; i < len; i += 3)`, in at most `fuel` turns. -/
def text_from (input : List UInt8) : (fuel : Nat) → (i : Nat) → List UInt8
  | 0, _ => []
  | fuel + 1, i => if i < input.length then group input i ++ text_from input fuel (i + 3) else []

/-- The loop's output. -/
def text (input : List UInt8) : List UInt8 := text_from input input.length 0

/-- `(int)o`. -/
def to_int (o : Nat) : Int := Int.bmod o (2 ^ 32)

/-- What is returned, and the bytes written to `out`. -/
def ws_base64 (input : List UInt8) (out_cap : Nat) : Int × List UInt8 :=
  let need := (input.length + 2) % 2 ^ 64 / 3 * 4 % 2 ^ 64
  if out_cap < (need + 1) % 2 ^ 64 then (-1, [])
  else (to_int (text input).length, text input ++ [0])

/-! ## §2. The strict decoder. -/

/-- The six bits of a letter. -/
def sextet (c : UInt8) : Option Nat := ws_base64.t.idxOf? c

/-- The last group, where its padding stands. -/
def decode_last (a b c d : UInt8) : Option (List UInt8) := do
  let a ← sextet a
  let b ← sextet b
  if c = pad then
    if d = pad ∧ b % 16 = 0 then some [UInt8.ofNat (a * 4 + b / 16)] else none
  else
    let c ← sextet c
    if d = pad then
      if c % 4 = 0 then some [UInt8.ofNat (a * 4 + b / 16), UInt8.ofNat (b % 16 * 16 + c / 4)]
      else none
    else
      let d ← sextet d
      some [UInt8.ofNat (a * 4 + b / 16), UInt8.ofNat (b % 16 * 16 + c / 4),
        UInt8.ofNat (c % 4 * 64 + d)]

/-- A group with letters only. -/
def decode_group (a b c d : UInt8) : Option (List UInt8) := do
  let a ← sextet a
  let b ← sextet b
  let c ← sextet c
  let d ← sextet d
  some [UInt8.ofNat (a * 4 + b / 16), UInt8.ofNat (b % 16 * 16 + c / 4),
    UInt8.ofNat (c % 4 * 64 + d)]

def decode : List UInt8 → Option (List UInt8)
  | [] => some []
  | [a, b, c, d] => decode_last a b c d
  | a :: b :: c :: d :: e :: rest => do
    let bytes ← decode_group a b c d
    let more ← decode (e :: rest)
    some (bytes ++ more)
  | _ => none

/-! ## §3. The loop. -/

/-- The letter of a number below 64. -/
def L (v : Nat) : UInt8 := ws_base64.t.getD v 0

/-- The text, group by group. -/
def encode : List UInt8 → List UInt8
  | [] => []
  | [a] => [L (a.toNat / 4), L (a.toNat % 4 * 16), pad, pad]
  | [a, b] =>
    [L (a.toNat / 4), L (a.toNat % 4 * 16 + b.toNat / 16), L (b.toNat % 16 * 4), pad]
  | a :: b :: c :: rest =>
    L (a.toNat / 4) :: L (a.toNat % 4 * 16 + b.toNat / 16) ::
      L (b.toNat % 16 * 4 + c.toNat / 64) :: L (c.toNat % 64) :: encode rest

theorem toNat_bytes (a b c : UInt8) :
    (a.toUInt32 <<< 16 ||| b.toUInt32 <<< 8 ||| c.toUInt32).toNat =
      a.toNat * 65536 + b.toNat * 256 + c.toNat := by
  have ha := a.toNat_lt
  have hb := b.toNat_lt
  have hc := c.toNat_lt
  have hlow : b.toNat <<< 8 ||| c.toNat = b.toNat * 256 + c.toNat := by
    rw [← Nat.shiftLeft_add_eq_or_of_lt hc, Nat.shiftLeft_eq]
  have hhigh : a.toNat <<< 16 ||| (b.toNat * 256 + c.toNat) =
      a.toNat * 65536 + (b.toNat * 256 + c.toNat) := by
    rw [← Nat.shiftLeft_add_eq_or_of_lt (by omega), Nat.shiftLeft_eq]
  have h16 : a.toNat <<< 16 % 2 ^ 32 = a.toNat <<< 16 := by
    rw [Nat.shiftLeft_eq]
    omega
  have h8 : b.toNat <<< 8 % 2 ^ 32 = b.toNat <<< 8 := by
    rw [Nat.shiftLeft_eq]
    omega
  rw [UInt32.toNat_or, UInt32.toNat_or, UInt32.toNat_shiftLeft, UInt32.toNat_shiftLeft]
  simp only [UInt8.toNat_toUInt32]
  show a.toNat <<< 16 % 2 ^ 32 ||| b.toNat <<< 8 % 2 ^ 32 ||| c.toNat = _
  rw [h16, h8, Nat.or_assoc, hlow, hhigh]
  omega

theorem toNat_six (n : UInt32) (k : UInt32) (hk : k.toNat < 32) :
    (n >>> k &&& 63).toNat = n.toNat / 2 ^ k.toNat % 64 := by
  rw [UInt32.toNat_and, UInt32.toNat_shiftRight, Nat.mod_eq_of_lt hk, Nat.shiftRight_eq_div_pow]
  exact Nat.and_two_pow_sub_one_eq_mod _ 6

theorem letter_six (n k : UInt32) (hk : k.toNat < 32) :
    letter (n >>> k &&& 63) = L (n.toNat / 2 ^ k.toNat % 64) := by
  rw [← toNat_six n k hk]
  rfl

theorem letter_low (n : UInt32) : letter (n &&& 63) = L (n.toNat % 64) := by
  have hlow : (n &&& 63).toNat = n.toNat % 64 := by
    rw [UInt32.toNat_and]
    exact Nat.and_two_pow_sub_one_eq_mod _ 6
  rw [← hlow]
  rfl

/-- The four letters of a number made of three bytes. -/
theorem letters (a b c : UInt8) {n : UInt32}
    (hn : n = a.toUInt32 <<< 16 ||| b.toUInt32 <<< 8 ||| c.toUInt32) :
    letter (n >>> 18 &&& 63) = L (a.toNat / 4) ∧
      letter (n >>> 12 &&& 63) = L (a.toNat % 4 * 16 + b.toNat / 16) ∧
      letter (n >>> 6 &&& 63) = L (b.toNat % 16 * 4 + c.toNat / 64) ∧
      letter (n &&& 63) = L (c.toNat % 64) := by
  have ha := a.toNat_lt
  have hb := b.toNat_lt
  have hc := c.toNat_lt
  have hv : n.toNat = a.toNat * 65536 + b.toNat * 256 + c.toNat := by rw [hn, toNat_bytes]
  refine ⟨(letter_six n 18 (by decide)).trans (congrArg L ?_),
    (letter_six n 12 (by decide)).trans (congrArg L ?_),
    (letter_six n 6 (by decide)).trans (congrArg L ?_), (letter_low n).trans (congrArg L ?_)⟩
  · show n.toNat / 262144 % 64 = _
    omega
  · show n.toNat / 4096 % 64 = _
    omega
  · show n.toNat / 64 % 64 = _
    omega
  · omega

theorem group_drop (input : List UInt8) (i : Nat) : group input i = group (input.drop i) 0 := by
  have hget (k : Nat) : (input.drop i).getD (0 + k) 0 = input.getD (i + k) 0 := by
    simp [List.getD_eq_getElem?_getD]
  have hlt (k : Nat) : 0 + k < (input.drop i).length ↔ i + k < input.length := by
    rw [List.length_drop]
    omega
  have h0 := hget 0
  rw [Nat.add_zero, Nat.add_zero] at h0
  unfold group
  simp only [hget, hlt, h0]

theorem group_one (a : UInt8) : group [a] 0 = encode [a] := by
  obtain ⟨h1, h2, -, -⟩ := letters a 0 0 (n := a.toUInt32 <<< 16) (by simp)
  simp [group, encode, h1, h2]

theorem group_two (a b : UInt8) : group [a, b] 0 = encode [a, b] := by
  obtain ⟨h1, h2, h3, -⟩ := letters a b 0 (n := a.toUInt32 <<< 16 ||| b.toUInt32 <<< 8) (by simp)
  simp [group, encode, h1, h2, h3]

theorem group_three (a b c : UInt8) (rest : List UInt8) :
    group (a :: b :: c :: rest) 0 ++ encode rest = encode (a :: b :: c :: rest) := by
  obtain ⟨h1, h2, h3, h4⟩ := letters a b c rfl
  simp [group, encode, h1, h2, h3, h4]

/-- The loop, by induction on its turns. -/
theorem text_from_eq (input : List UInt8) (fuel : Nat) :
    ∀ i, input.length ≤ i + fuel → text_from input fuel i = encode (input.drop i) := by
  induction fuel with
  | zero =>
      intro i h
      rw [List.drop_eq_nil_of_le (by omega)]
      rfl
  | succ fuel ih =>
      intro i h
      have hmore : input.drop (i + 3) = (input.drop i).drop 3 := by rw [List.drop_drop]
      by_cases hi : i < input.length
      · have hturn : text_from input (fuel + 1) i =
            group (input.drop i) 0 ++ encode ((input.drop i).drop 3) := by
          rw [← group_drop, ← hmore, ← ih (i + 3) (by omega)]
          exact if_pos hi
        rw [hturn]
        have hne : input.drop i ≠ [] := by
          intro e
          have := congrArg List.length e
          rw [List.length_drop, List.length_nil] at this
          omega
        match hd : input.drop i with
        | [] => exact absurd hd hne
        | [a] => rw [group_one]; exact List.append_nil _
        | [a, b] => rw [group_two]; exact List.append_nil _
        | a :: b :: c :: rest => exact group_three a b c rest
      · rw [List.drop_eq_nil_of_le (by omega)]
        exact if_neg hi

theorem text_eq (input : List UInt8) : text input = encode input :=
  text_from_eq input input.length 0 (by omega)

theorem encode_length (input : List UInt8) : (encode input).length = (input.length + 2) / 3 * 4 := by
  fun_induction encode input with
  | case1 => rfl
  | case2 a => simp
  | case3 a b => simp
  | case4 a b c rest ih =>
      simp only [List.length_cons, ih]
      omega

/-! ## §4. The decoder. -/

theorem sextet_L : ∀ v < 64, sextet (L v) = some v ∧ L v ≠ pad := by decide +kernel

theorem L_sextet {c : UInt8} {v : Nat} (h : sextet c = some v) : v < 64 ∧ L v = c := by
  obtain ⟨hv, hc, -⟩ := List.idxOf?_eq_some_iff.mp h
  refine ⟨by simpa [ws_base64.t, ascii] using hv, ?_⟩
  rw [L, List.getD_eq_getElem?_getD, List.getElem?_eq_getElem hv]
  simpa using hc

theorem ofNat_eq {a : UInt8} {v : Nat} (h : v = a.toNat) : UInt8.ofNat v = a := by
  rw [h, UInt8.ofNat_toNat]

/-- Three bytes come back from their four letters. -/
theorem decode_three (a b c : UInt8) :
    decode_group (L (a.toNat / 4)) (L (a.toNat % 4 * 16 + b.toNat / 16))
      (L (b.toNat % 16 * 4 + c.toNat / 64)) (L (c.toNat % 64)) = some [a, b, c] := by
  have ha := a.toNat_lt
  have hb := b.toNat_lt
  have hc := c.toNat_lt
  have h1 := (sextet_L (a.toNat / 4) (by omega)).1
  have h2 := (sextet_L (a.toNat % 4 * 16 + b.toNat / 16) (by omega)).1
  have h3 := (sextet_L (b.toNat % 16 * 4 + c.toNat / 64) (by omega)).1
  have h4 := (sextet_L (c.toNat % 64) (by omega)).1
  simp only [decode_group, h1, h2, h3, h4, Option.bind_eq_bind, Option.bind_some]
  rw [ofNat_eq (a := a) (by omega), ofNat_eq (a := b) (by omega), ofNat_eq (a := c) (by omega)]

/-- A last group without padding is a group. -/
theorem decode_last_full {a b c d : UInt8} (hc : c ≠ pad) (hd : d ≠ pad) :
    decode_last a b c d = decode_group a b c d := by
  unfold decode_last decode_group
  simp only [if_neg hc, if_neg hd]

theorem decode_one (a : UInt8) :
    decode_last (L (a.toNat / 4)) (L (a.toNat % 4 * 16)) pad pad = some [a] := by
  have ha := a.toNat_lt
  have h1 := (sextet_L (a.toNat / 4) (by omega)).1
  have h2 := (sextet_L (a.toNat % 4 * 16) (by omega)).1
  have hcut : a.toNat % 4 * 16 % 16 = 0 := by omega
  simp only [decode_last, h1, h2, hcut, Option.bind_eq_bind, Option.bind_some, and_self, if_true]
  rw [ofNat_eq (a := a) (by omega)]

theorem decode_two (a b : UInt8) :
    decode_last (L (a.toNat / 4)) (L (a.toNat % 4 * 16 + b.toNat / 16)) (L (b.toNat % 16 * 4)) pad =
      some [a, b] := by
  have ha := a.toNat_lt
  have hb := b.toNat_lt
  have h1 := (sextet_L (a.toNat / 4) (by omega)).1
  have h2 := (sextet_L (a.toNat % 4 * 16 + b.toNat / 16) (by omega)).1
  obtain ⟨h3, hpad⟩ := sextet_L (b.toNat % 16 * 4) (by omega)
  have hcut : b.toNat % 16 * 4 % 4 = 0 := by omega
  simp only [decode_last, h1, h2, h3, hcut, if_neg hpad, Option.bind_eq_bind, Option.bind_some,
    if_true]
  rw [ofNat_eq (a := a) (by omega), ofNat_eq (a := b) (by omega)]

theorem encode_ne_nil (a : UInt8) (rest : List UInt8) : ∃ e es, encode (a :: rest) = e :: es := by
  match rest with
  | [] => exact ⟨_, _, rfl⟩
  | [b] => exact ⟨_, _, rfl⟩
  | b :: c :: rest => exact ⟨_, _, rfl⟩

/-- The text decodes, group by group. -/
theorem decode_encode (input : List UInt8) : decode (encode input) = some input := by
  fun_induction encode input with
  | case1 => rfl
  | case2 a => exact decode_one a
  | case3 a b => exact decode_two a b
  | case4 a b c rest ih =>
      have h3 := (sextet_L (b.toNat % 16 * 4 + c.toNat / 64) (by have := c.toNat_lt; omega)).2
      have h4 := (sextet_L (c.toNat % 64) (by omega)).2
      match rest with
      | [] =>
          show decode_last _ _ _ _ = _
          rw [decode_last_full h3 h4, decode_three]
      | d :: rest =>
          obtain ⟨e, es, he⟩ := encode_ne_nil d rest
          rw [he] at ih ⊢
          rw [decode, decode_three, ih]
          rfl

theorem toNat_ofNat {v : Nat} (h : v < 256) : (UInt8.ofNat v).toNat = v :=
  UInt8.toNat_ofNat_of_lt' h

/-- A group that decodes is its bytes' group. -/
theorem decode_group_some {a b c d : UInt8} {bytes : List UInt8}
    (h : decode_group a b c d = some bytes) (rest : List UInt8) :
    encode (bytes ++ rest) = a :: b :: c :: d :: encode rest := by
  simp only [decode_group, Option.bind_eq_bind, Option.bind_eq_some_iff, Option.some.injEq] at h
  obtain ⟨va, ha, vb, hb, vc, hc, vd, hd, rfl⟩ := h
  obtain ⟨hva, rfl⟩ := L_sextet ha
  obtain ⟨hvb, rfl⟩ := L_sextet hb
  obtain ⟨hvc, rfl⟩ := L_sextet hc
  obtain ⟨hvd, rfl⟩ := L_sextet hd
  have e1 : (va * 4 + vb / 16) / 4 = va := by omega
  have e2 : (va * 4 + vb / 16) % 4 * 16 + (vb % 16 * 16 + vc / 4) / 16 = vb := by omega
  have e3 : (vb % 16 * 16 + vc / 4) % 16 * 4 + (vc % 4 * 64 + vd) / 64 = vc := by omega
  have e4 : (vc % 4 * 64 + vd) % 64 = vd := by omega
  simp only [List.cons_append, List.nil_append]
  rw [encode, toNat_ofNat (by omega), toNat_ofNat (by omega), toNat_ofNat (by omega), e1, e2, e3, e4]

/-- So is a last group. -/
theorem decode_last_some {a b c d : UInt8} {bytes : List UInt8}
    (h : decode_last a b c d = some bytes) : encode bytes = [a, b, c, d] := by
  by_cases hc : c = pad
  · -- two letters: one byte
    obtain rfl := hc
    simp only [decode_last, if_true, Option.bind_eq_bind, Option.bind_eq_some_iff] at h
    obtain ⟨va, ha, vb, hb, h⟩ := h
    split at h
    · rename_i hcut
      obtain ⟨rfl, hcut⟩ := hcut
      obtain rfl := Option.some.inj h
      obtain ⟨hva, rfl⟩ := L_sextet ha
      obtain ⟨hvb, rfl⟩ := L_sextet hb
      have e1 : (va * 4 + vb / 16) / 4 = va := by omega
      have e2 : (va * 4 + vb / 16) % 4 * 16 = vb := by omega
      rw [encode, toNat_ofNat (by omega), e1, e2]
    · cases h
  · by_cases hd : d = pad
    · -- three letters: two bytes
      obtain rfl := hd
      simp only [decode_last, if_neg hc, if_true, Option.bind_eq_bind, Option.bind_eq_some_iff] at h
      obtain ⟨va, ha, vb, hb, vc, hvc, h⟩ := h
      split at h
      · rename_i hcut
        obtain rfl := Option.some.inj h
        obtain ⟨hva, rfl⟩ := L_sextet ha
        obtain ⟨hvb, rfl⟩ := L_sextet hb
        obtain ⟨hvc, rfl⟩ := L_sextet hvc
        have e1 : (va * 4 + vb / 16) / 4 = va := by omega
        have e2 : (va * 4 + vb / 16) % 4 * 16 + (vb % 16 * 16 + vc / 4) / 16 = vb := by omega
        have e3 : (vb % 16 * 16 + vc / 4) % 16 * 4 = vc := by omega
        rw [encode, toNat_ofNat (by omega), toNat_ofNat (by omega), e1, e2, e3]
      · cases h
    · rw [decode_last_full hc hd] at h
      have := decode_group_some h []
      rwa [List.append_nil] at this

/-- A text that decodes is the one that the code writes. -/
theorem encode_decode (s : List UInt8) : ∀ x, decode s = some x → encode x = s := by
  fun_induction decode s with
  | case1 =>
      rintro x h
      obtain rfl := Option.some.inj h
      rfl
  | case2 a b c d => exact fun x h => decode_last_some h
  | case3 a b c d e rest ih =>
      intro x h
      simp only [Option.bind_eq_bind, Option.bind_eq_some_iff, Option.some.injEq] at h
      obtain ⟨bytes, hgroup, more, hmore, rfl⟩ := h
      rw [decode_group_some hgroup, ih more hmore]
  | case4 => exact fun x h => by cases h

/-- **The decoder accepts exactly the texts that the code writes.** -/
theorem decode_iff {s input : List UInt8} : decode s = some input ↔ text input = s := by
  rw [text_eq]
  constructor
  · exact encode_decode s input
  · rintro rfl
    exact decode_encode input

/-! ## §5. The buffer. -/

/-- The check for room does not wrap. -/
theorem ws_base64_room {input : List UInt8} (hlen : input.length < 2 ^ 63) (out_cap : Nat) :
    ws_base64 input out_cap = if (input.length + 2) / 3 * 4 < out_cap then
      (to_int (text input).length, text input ++ [0]) else (-1, []) := by
  have hneed : ((input.length + 2) % 2 ^ 64 / 3 * 4 % 2 ^ 64 + 1) % 2 ^ 64 =
      (input.length + 2) / 3 * 4 + 1 := by omega
  unfold ws_base64
  dsimp only
  rw [hneed]
  by_cases h : (input.length + 2) / 3 * 4 < out_cap
  · rw [if_neg (by omega), if_pos h]
  · rw [if_pos (by omega), if_neg h]

theorem text_length (input : List UInt8) : (text input).length = (input.length + 2) / 3 * 4 := by
  rw [text_eq, encode_length]

/-- The bytes of a text are printable. -/
theorem text_printable (input : List UInt8) : ∀ b ∈ text input, 32 < b := by
  have hletter : ∀ v < 64, 32 < L v := by decide +kernel
  have hpad : 32 < pad := by decide
  rw [text_eq]
  fun_induction encode input with
  | case1 => simp
  | case2 a =>
      have ha := a.toNat_lt
      simp only [List.mem_cons, List.not_mem_nil, or_false]
      rintro b (rfl | rfl | rfl | rfl)
      · exact hletter _ (by omega)
      · exact hletter _ (by omega)
      · exact hpad
      · exact hpad
  | case3 a b =>
      have ha := a.toNat_lt
      have hb := b.toNat_lt
      simp only [List.mem_cons, List.not_mem_nil, or_false]
      rintro x (rfl | rfl | rfl | rfl)
      · exact hletter _ (by omega)
      · exact hletter _ (by omega)
      · exact hletter _ (by omega)
      · exact hpad
  | case4 a b c rest ih =>
      have ha := a.toNat_lt
      have hb := b.toNat_lt
      have hc := c.toNat_lt
      simp only [List.mem_cons]
      rintro x (rfl | rfl | rfl | rfl | hx)
      · exact hletter _ (by omega)
      · exact hletter _ (by omega)
      · exact hletter _ (by omega)
      · exact hletter _ (by omega)
      · exact ih x hx

/-- There is no control character in a text. -/
theorem text_without {c : UInt8} (hc : c ≤ 32) (input : List UInt8) : ∀ b ∈ text input, b ≠ c := by
  rintro b hb rfl
  exact UInt8.not_lt.mpr hc (text_printable input b hb)

/-- **Base64**: where the buffer has room for the text and its NUL, it gets both, the text is the one
    that a strict decoder takes back to the input, and its length is returned; where it has not,
    nothing is written.  Never is a byte written past the buffer. -/
theorem ws_base64_spec (input : List UInt8) (out_cap : Nat) (hlen : input.length < 2 ^ 63) :
    if (input.length + 2) / 3 * 4 < out_cap then
      ∃ out, ws_base64 input out_cap = (to_int out.length, out ++ [0]) ∧
        out.length = (input.length + 2) / 3 * 4 ∧ ∀ s, decode s = some input ↔ s = out
    else ws_base64 input out_cap = (-1, []) := by
  have hroom := ws_base64_room hlen out_cap
  split_ifs at hroom ⊢
  · exact ⟨text input, hroom, text_length input, fun s => decode_iff.trans eq_comm⟩
  · exact hroom

/-- The digest of a handshake in its buffer of 64. -/
theorem ws_base64_spec_digest :
    if ((List.replicate 20 (0 : UInt8)).length + 2) / 3 * 4 < 64 then
      ∃ out, ws_base64 (List.replicate 20 0) 64 = (to_int out.length, out ++ [0]) ∧
        out.length = ((List.replicate 20 (0 : UInt8)).length + 2) / 3 * 4 ∧
        ∀ s, decode s = some (List.replicate 20 0) ↔ s = out
    else ws_base64 (List.replicate 20 0) 64 = (-1, []) :=
  ws_base64_spec (List.replicate 20 0) 64 (by decide)

end CFiber.Ws
