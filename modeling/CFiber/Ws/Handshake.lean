/-
  CFiber.Ws.Handshake — the upgrade request (`examples/ws_echo/ws_echo.c`).

  The request is read into the carry buffer until its header block ends, is looked at with the string
  functions of C, and is answered; the bytes behind it stay in the buffer for the frame reader.  What
  the string scans find is stated by the lines of the text.

    • `find_header_spec`     — the value of a header is that of the first line with its name;
    • `do_handshake_answers` — the answer is a function of the bytes that arrive, wherever they are
      cut, and none of the bytes behind the request is lost;
    • `conn_fiber_spec`      — a connection from its first byte to its last;
    • `Said.unique`          — what is said on it is a function of the bytes that arrive.
-/
import Mathlib.Data.List.GetD
import CFiber.Ws.Sha1
import CFiber.Ws.Base64
import CFiber.Ws.Session

namespace CFiber.Ws

open CFiber.Base

/-! ## §1. Strings. -/

def crlf : List UInt8 := [13, 10]

/-- `strstr`: the text from the first occurrence on. -/
def strstr (s pat : List UInt8) : Option (List UInt8) := s.tails.find? fun t => pat.isPrefixOf t

/-- `tolower` in the C locale. -/
def lower (b : UInt8) : UInt8 := if 65 ≤ b ∧ b ≤ 90 then b + 32 else b

/-- `strncasecmp(a, b, n) == 0`, for strings without their NUL. -/
def same_letters (a b : List UInt8) (n : Nat) : Bool := (a.take n).map lower = (b.take n).map lower

/-- A blank or a tab. -/
def is_blank (b : UInt8) : Bool := b = 32 ∨ b = 9

/-! ## §2. The code. -/

def MAX_REQUEST : Nat := 4096

def WS_MAGIC : List UInt8 := ascii "258EAFA5-E914-47DA-95CA-C5AB0DC85B11"

/-- CRLFCRLF ends at `i`. -/
def ends_at (buf : List UInt8) (i : Nat) : Bool :=
  3 ≤ i ∧ buf.getD (i - 3) 0 = 13 ∧ buf.getD (i - 2) 0 = 10 ∧ buf.getD (i - 1) 0 = 13 ∧
    buf.getD i 0 = 10

/-- Offset just past the first CRLFCRLF in the bytes, or 0 if there is none. -/
def find_header_end (buf : List UInt8) : Nat :=
  match (List.range buf.length).find? (ends_at buf) with
  | some i => i + 1
  | none => 0

/-- The header's line begins here. -/
def names (name line : List UInt8) : Bool :=
  same_letters line name name.length ∧ line.getD name.length 0 = 58

/-- `for (line = strstr(req, "\r\n"); line; line = strstr(line, "\r\n"))`, in at most `fuel` turns. -/
def find_header_from (name : List UInt8) : (fuel : Nat) → Option (List UInt8) → Option (List UInt8)
  | 0, _ => none
  | _, none => none
  | fuel + 1, some line =>
    let line := line.drop 2
    if names name line then
      let v := (line.drop (name.length + 1)).dropWhile is_blank
      match strstr v crlf with
      | none => none
      | some rest => some (v.take (v.length - rest.length))
    else find_header_from name fuel (strstr line crlf)

/-- Value of the header `name`, trimmed of leading blanks. -/
def find_header (req name : List UInt8) : Option (List UInt8) :=
  find_header_from name (req.length + 1) (strstr req crlf)

def header_is (req name want : List UInt8) : Bool :=
  match find_header req name with
  | some v => v.length = want.length ∧ same_letters v want v.length
  | none => false

def reject (fd : Wire) (status : List UInt8) : Wire :=
  (cfiber_ev_write fd
    (ascii "HTTP/1.1 " ++ status ++ ascii "\r\nConnection: close\r\n\r\n")).2

/-- The 101 response up to the accept value. -/
def switching_head : List UInt8 :=
  ascii "HTTP/1.1 101 Switching Protocols\r\n" ++ ascii "Upgrade: websocket\r\n" ++
    ascii "Connection: Upgrade\r\n" ++ ascii "Sec-WebSocket-Accept: "

/-- The 101 response. -/
def switching (accept : List UInt8) : List UInt8 := switching_head ++ accept ++ ascii "\r\n\r\n"

/-- `while (!hdr_end)`, in at most `fuel` turns: the bytes read, or the socket when the server gives
    up. -/
def read_request : (fuel : Nat) → List UInt8 → Wire → Except Wire (List UInt8 × Wire)
  | 0, _, fd => .error fd
  | fuel + 1, req, fd =>
    if req.length ≥ MAX_REQUEST - 1 then
      .error (reject fd (ascii "431 Request Header Fields Too Large"))
    else
      let (r, bytes, fd) := cfiber_ev_read fd (MAX_REQUEST - 1 - req.length)
      if r ≤ 0 then .error fd
      else
        let req := req ++ bytes
        if find_header_end req = 0 then read_request fuel req fd else .ok (req, fd)

/-- The header block up to the NUL that replaces its last byte, as a string. -/
def header_text (req : List UInt8) (hdr_end : Nat) : List UInt8 :=
  (req.take (hdr_end - 1)).takeWhile fun b => b ≠ 0

/-- The key, if the request is in order. -/
def accepted (text : List UInt8) : Option (List UInt8) :=
  match find_header text (ascii "Sec-WebSocket-Key") with
  | none => none
  | some key =>
    if text.take 4 = ascii "GET " ∧ header_is text (ascii "Upgrade") (ascii "websocket") ∧
      header_is text (ascii "Sec-WebSocket-Version") (ascii "13") ∧ key.length > 0 ∧
      key.length ≤ 256 then some key
    else none

/-- The response in its buffer of 256. -/
def send_response (c : Conn) (resp : List UInt8) : Int × Conn :=
  if resp.length ≥ 256 then (-1, c)
  else
    match cfiber_ev_write c.fd resp with
    | (r, fd) => (if r < 0 then -1 else 0, { c with fd := fd })

/-- accept = base64(sha1(key + magic GUID)), in the 101 response. -/
def respond (c : Conn) (key : List UInt8) : Int × Conn :=
  match ws_base64 (ws_sha1 (key ++ WS_MAGIC)) 64 with
  | (r, accept) =>
    if r < 0 then (-1, c) else send_response c (switching (accept.takeWhile fun b => b ≠ 0))

/-- Read the upgrade request, validate it, answer 101. -/
def do_handshake (c : Conn) : Int × Conn :=
  match read_request MAX_REQUEST [] c.fd with
  | .error fd => (-1, { c with fd := fd })
  | .ok (req, fd) =>
    let hdr_end := find_header_end req
    let c := { c with fd := fd, carry := req, carry_off := hdr_end }
    match accepted (header_text req hdr_end) with
    | none => (-1, { c with fd := reject c.fd (ascii "400 Bad Request") })
    | some key => respond c key

/-- One per connection; `none` where the fiber does not come to its end.  The two flags say whether
    the connection and its buffers could be allocated.  What is returned is the socket as it is
    closed. -/
def conn_fiber (conn buffers : Bool) (arg : Wire) : Option Wire :=
  if ¬ conn then some arg
  else
    let c : Conn := ⟨arg, [], 0, [], -1⟩
    if ¬ buffers then some c.fd
    else
      let (rc, c) := do_handshake c
      if rc < 0 then some c.fd else (serve (c.stream.length + 1) c).map Conn.fd

/-! ## §3. Lines. -/

/-- A text's lines; the last one is what no CRLF ends. -/
def lines : List UInt8 → List (List UInt8)
  | [] => [[]]
  | [a] => [[a]]
  | a :: b :: s =>
    if a = 13 ∧ b = 10 then [] :: lines s
    else
      match lines (b :: s) with
      | l :: ls => (a :: l) :: ls
      | [] => [[a]]

/-- The value in a header's line. -/
def value (name line : List UInt8) : List UInt8 :=
  (line.drop (name.length + 1)).dropWhile is_blank

/-- The value of a header: that of the first line with its name, behind the request line. -/
def header (text name : List UInt8) : Option (List UInt8) :=
  ((lines text).tail.dropLast.find? (names name)).map (value name)

theorem strstr_cons (a : UInt8) (s pat : List UInt8) :
    strstr (a :: s) pat = if pat.isPrefixOf (a :: s) then some (a :: s) else strstr s pat := by
  rw [strstr, List.tails_cons, List.find?_cons]
  split <;> simp_all [strstr]

/-- The first CRLF ends the first line. -/
theorem lines_cases (s : List UInt8) :
    (strstr s crlf = none ∧ lines s = [s]) ∨
      ∃ l rest, strstr s crlf = some (crlf ++ rest) ∧ s = l ++ (crlf ++ rest) ∧
        lines s = l :: lines rest := by
  fun_induction lines s with
  | case1 => exact Or.inl ⟨by decide, rfl⟩
  | case2 a => 
      left
      refine ⟨?_, rfl⟩
      rw [strstr_cons, if_neg (by simp [crlf])]
      decide
  | case3 a b s h ih =>
      obtain ⟨rfl, rfl⟩ := h
      right
      refine ⟨[], s, ?_, rfl, rfl⟩
      rw [strstr_cons, if_pos (by simp [crlf])]
      rfl
  | case4 a b s h l ls hl ih =>
      have hskip : strstr (a :: b :: s) crlf = strstr (b :: s) crlf := by
        rw [strstr_cons, if_neg]
        simp only [crlf, List.isPrefixOf, Bool.and_true, Bool.and_eq_true, beq_iff_eq]
        rintro ⟨rfl, rfl⟩
        exact h ⟨rfl, rfl⟩
      rw [hskip]
      rcases ih with ⟨hnone, hlines⟩ | ⟨l', rest, hsome, hs, hlines⟩
      · rw [hl] at hlines
        injection hlines with hl' hls
        left
        exact ⟨hnone, by rw [hl', hls]⟩
      · rw [hl] at hlines
        injection hlines with hl' hls
        right
        exact ⟨a :: l', rest, hsome, by rw [hs]; rfl, by rw [hl', hls]⟩
  | case5 a b s h hl ih =>
      rcases ih with ⟨-, hlines⟩ | ⟨l', rest, -, -, hlines⟩
      · rw [hl] at hlines
        cases hlines
      · rw [hl] at hlines
        cases hlines

theorem lines_ne_nil (s : List UInt8) : lines s ≠ [] := by
  rcases lines_cases s with ⟨-, h⟩ | ⟨l, rest, -, -, h⟩
  · rw [h]
    exact List.cons_ne_nil _ _
  · rw [h]
    exact List.cons_ne_nil _ _

/-- What is found stays found when the bytes before it go. -/
theorem strstr_suffix {r : List UInt8} (p : List UInt8) : ∀ l : List UInt8,
    strstr (p ++ l ++ (crlf ++ r)) crlf = some (crlf ++ r) →
      strstr (l ++ (crlf ++ r)) crlf = some (crlf ++ r) := by
  induction p with
  | nil => exact fun l h => h
  | cons a p ih =>
      intro l h
      rw [List.cons_append, List.cons_append, strstr_cons] at h
      split_ifs at h with hprefix
      · have hlen := congrArg List.length (Option.some.inj h)
        simp at hlen
        omega
      · exact ih l h

theorem strstr_none {p : List UInt8} : ∀ {l : List UInt8},
    strstr (p ++ l) crlf = none → strstr l crlf = none := by
  induction p with
  | nil => exact fun h => h
  | cons a p ih =>
      intro l h
      rw [List.cons_append, strstr_cons] at h
      split_ifs at h
      exact ih h

/-- A header's name has no end of a line in it. -/
def Plain (name : List UInt8) : Prop := ∀ b ∈ name, lower b ≠ 13

instance : DecidablePred Plain := fun name => List.decidableBAll _ name

theorem names_iff (name line : List UInt8) : names name line = true ↔
    (line.take name.length).map lower = name.map lower ∧ line.getD name.length 0 = 58 := by
  simp [names, same_letters]

theorem not_names {name l : List UInt8} (h : l.length ≤ name.length) : ¬ names name l = true := by
  rw [names_iff, List.getD_eq_getElem?_getD, List.getElem?_eq_none h]
  rintro ⟨-, h58⟩
  exact absurd h58 (by decide)

/-- A header's name is within its line. -/
theorem names_line {name : List UInt8} (hname : Plain name) (l r : List UInt8) :
    names name (l ++ (crlf ++ r)) = names name l := by
  rw [Bool.eq_iff_iff]
  by_cases hlen : name.length < l.length
  · have htake : (l ++ (crlf ++ r)).take name.length = l.take name.length :=
      List.take_append_of_le_length (Nat.le_of_lt hlen)
    have hget : (l ++ (crlf ++ r)).getD name.length 0 = l.getD name.length 0 :=
      List.getD_append _ _ _ _ hlen
    rw [names_iff, names_iff, htake, hget]
  · -- the carriage return would have to be a letter of the name, or the colon
    refine iff_of_false ?_ (not_names (Nat.le_of_not_lt hlen))
    rw [names_iff]
    rintro ⟨hletters, hcolon⟩
    have hcr : (l ++ (crlf ++ r))[l.length]? = some 13 := by
      rw [List.getElem?_append_right (Nat.le_refl _), Nat.sub_self]
      rfl
    by_cases heq : l.length = name.length
    · rw [← heq, List.getD_eq_getElem?_getD, hcr] at hcolon
      exact absurd hcolon (by decide)
    · have hlt : l.length < name.length := by omega
      have hget := congrArg (fun x => x[l.length]?) hletters
      simp only [List.getElem?_map, List.getElem?_take_of_lt hlt, hcr, List.getElem?_eq_getElem hlt,
        Option.map_some, Option.some.injEq] at hget
      exact hname _ (List.getElem_mem hlt) (by rw [← hget]; decide)

/-- The value is an end of its line. -/
theorem value_suffix (name l : List UInt8) : ∃ p, l = p ++ value name l := by
  refine ⟨l.take (name.length + 1) ++ (l.drop (name.length + 1)).takeWhile is_blank, ?_⟩
  rw [List.append_assoc, value, List.takeWhile_append_dropWhile, List.take_append_drop]

/-- Blanks are skipped within the line. -/
theorem value_line {name l : List UInt8} (hlen : name.length < l.length) (r : List UInt8) :
    value name (l ++ (crlf ++ r)) = value name l ++ (crlf ++ r) := by
  have hdrop : (l ++ (crlf ++ r)).drop (name.length + 1) = l.drop (name.length + 1) ++ (crlf ++ r) :=
    List.drop_append_of_le_length hlen
  have hend : (crlf ++ r).dropWhile is_blank = crlf ++ r := rfl
  rw [value, hdrop, List.dropWhile_append, hend, value]
  split_ifs with hempty
  · rw [List.isEmpty_iff.mp hempty]
    rfl
  · rfl

/-- The scan for a header, by induction on its turns. -/
theorem find_header_from_spec {name : List UInt8} (hname : Plain name) (fuel : Nat) :
    ∀ rest : List UInt8, rest.length < fuel →
      find_header_from name fuel (some (crlf ++ rest)) =
        ((lines rest).dropLast.find? (names name)).map (value name) := by
  induction fuel with
  | zero => exact fun _ h => absurd h (Nat.not_lt_zero _)
  | succ fuel ih =>
      intro rest hfuel
      show (if names name rest then
          match strstr (value name rest) crlf with
          | none => none
          | some more => some ((value name rest).take ((value name rest).length - more.length))
        else find_header_from name fuel (strstr rest crlf)) = _
      rcases lines_cases rest with ⟨hnone, hlines⟩ | ⟨l, rest', hsome, hrest, hlines⟩
      · -- no line ends here
        obtain ⟨p, hp⟩ := value_suffix name rest
        have hvalue : strstr (value name rest) crlf = none := strstr_none (by rw [← hp]; exact hnone)
        rw [hlines, hnone, hvalue]
        cases fuel <;> simp [find_header_from]
      · obtain ⟨m, ms, hms⟩ := List.exists_cons_of_ne_nil (lines_ne_nil rest')
        have hdrop : (lines rest).dropLast = l :: (lines rest').dropLast := by
          rw [hlines, hms]
          rfl
        rw [hdrop, List.find?_cons]
        have hnames : names name rest = names name l := by
          rw [hrest]
          exact names_line hname l rest'
        rw [hnames]
        cases hl : names name l with
        | true =>
            have hlen : name.length < l.length := by
              by_contra hle
              exact not_names (Nat.le_of_not_lt hle) hl
            obtain ⟨p, hp⟩ := value_suffix name l
            have hvalue : value name rest = value name l ++ (crlf ++ rest') := by
              rw [hrest]
              exact value_line hlen rest'
            have hfound : strstr (value name rest) crlf = some (crlf ++ rest') := by
              rw [hvalue]
              apply strstr_suffix p
              rw [← hp, ← hrest]
              exact hsome
            have hcut : (value name rest).take ((value name rest).length - (crlf ++ rest').length) =
                value name l := by
              rw [hvalue, List.length_append, Nat.add_sub_cancel]
              exact List.take_left
            simp only [if_true, hfound, hcut, Option.map_some]
        | false =>
            have hlen : rest'.length < fuel := by
              have hcrlf : crlf.length = 2 := rfl
              rw [hrest, List.length_append, List.length_append] at hfuel
              omega
            rw [hsome, ih rest' hlen]
            rfl

/-- **`find_header`** finds the value in the first line that has the name. -/
theorem find_header_spec {name : List UInt8} (hname : Plain name) (text : List UInt8) :
    find_header text name = header text name := by
  unfold find_header header
  rcases lines_cases text with ⟨hnone, hlines⟩ | ⟨l, rest, hsome, htext, hlines⟩
  · rw [hnone, hlines]
    rfl
  · have hlen : rest.length < text.length + 1 := by
      rw [htext, List.length_append, List.length_append]
      omega
    rw [hsome, find_header_from_spec hname _ rest hlen, hlines]
    rfl

/-! ## §4. The request. -/

theorem ends_at_append {s : List UInt8} {i : Nat} (hi : i < s.length) (t : List UInt8) :
    ends_at (s ++ t) i = ends_at s i := by
  have hget (k : Nat) (hk : k < s.length) : (s ++ t).getD k 0 = s.getD k 0 :=
    List.getD_append _ _ _ _ hk
  unfold ends_at
  rw [hget (i - 3) (by omega), hget (i - 2) (by omega), hget (i - 1) (by omega), hget i hi]

theorem header_end_zero {s : List UInt8} :
    find_header_end s = 0 ↔ ∀ i < s.length, ¬ ends_at s i = true := by
  unfold find_header_end
  cases h : (List.range s.length).find? (ends_at s) with
  | some i =>
      obtain ⟨hi, hmem, -⟩ := List.find?_range_eq_some.mp h
      rw [List.mem_range] at hmem
      refine iff_of_false (Nat.succ_ne_zero i) fun hno => hno i hmem hi
  | none =>
      rw [List.find?_range_eq_none] at h
      exact iff_of_true rfl fun i hi => by simpa using h i hi

theorem header_end_succ {s : List UInt8} {i : Nat} :
    find_header_end s = i + 1 ↔ i < s.length ∧ ends_at s i = true ∧ ∀ j < i, ¬ ends_at s j = true := by
  have hfind : find_header_end s = i + 1 ↔ (List.range s.length).find? (ends_at s) = some i := by
    unfold find_header_end
    cases (List.range s.length).find? (ends_at s) <;> simp
  rw [hfind, List.find?_range_eq_some, List.mem_range]
  constructor
  · rintro ⟨hi, hlt, hno⟩
    exact ⟨hlt, hi, fun j hj => by simpa using hno j hj⟩
  · rintro ⟨hlt, hi, hno⟩
    exact ⟨hi, hlt, fun j hj => by simpa using hno j hj⟩

/-- The end of the header block does not move when more bytes come. -/
theorem header_end_append {s : List UInt8} (h : find_header_end s ≠ 0) (t : List UInt8) :
    find_header_end (s ++ t) = find_header_end s ∧ find_header_end s ≤ s.length := by
  obtain ⟨i, hi⟩ := Nat.exists_eq_succ_of_ne_zero h
  obtain ⟨hlt, hend, hno⟩ := header_end_succ.mp hi
  refine ⟨?_, by omega⟩
  rw [hi]
  refine header_end_succ.mpr ⟨by rw [List.length_append]; omega, ?_, fun j hj => ?_⟩
  · rw [ends_at_append hlt]
    exact hend
  · rw [ends_at_append (by omega)]
    exact hno j hj

/-- And bytes without one have it behind them, if at all. -/
theorem header_end_later {s : List UInt8} (h : find_header_end s = 0) (t : List UInt8) :
    find_header_end (s ++ t) = 0 ∨ s.length < find_header_end (s ++ t) := by
  cases he : find_header_end (s ++ t) with
  | zero => exact Or.inl rfl
  | succ i =>
      right
      obtain ⟨-, hend, -⟩ := header_end_succ.mp he
      by_contra hle
      have hlt : i < s.length := by omega
      rw [ends_at_append hlt] at hend
      exact header_end_zero.mp h i hlt hend

/-- The response to a request that is turned down. -/
def rejection (status : List UInt8) : List UInt8 :=
  ascii "HTTP/1.1 " ++ status ++ ascii "\r\nConnection: close\r\n\r\n"

theorem reject_line (fd : Wire) (status : List UInt8) :
    (reject fd status).line = fd.line.send (rejection status) := by
  obtain ⟨fd', hwrite, hline⟩ := write_spec fd (rejection status)
  show (cfiber_ev_write fd (rejection status)).2.line = _
  rw [hwrite]
  exact hline

/-- What reading the request comes to, for the bytes `s` that arrive. -/
inductive Requested (s : List UInt8) (l : Line) : Except Wire (List UInt8 × Wire) → Prop
  | complete {req : List UInt8} {fd : Wire} (found : find_header_end s ≠ 0)
    (near : find_header_end s ≤ MAX_REQUEST - 1) (same : find_header_end req = find_header_end s)
    (split : s = req ++ fd.inbox) (line : ∃ k, fd.line = l.skip k) : Requested s l (.ok (req, fd))
  | too_long {fd : Wire} (far : find_header_end s = 0 ∨ MAX_REQUEST - 1 < find_header_end s)
    (long : MAX_REQUEST - 1 ≤ s.length)
    (line : ∃ k, fd.line = (l.skip k).send (rejection (ascii "431 Request Header Fields Too Large"))) :
    Requested s l (.error fd)
  | cut {fd : Wire} (none : find_header_end s = 0) (short : s.length < MAX_REQUEST - 1)
    (line : ∃ k, fd.line = l.skip k) : Requested s l (.error fd)

/-- Bytes read before. -/
theorem Requested.after {s : List UInt8} {l : Line} {r : Nat}
    {res : Except Wire (List UInt8 × Wire)} (h : Requested s (l.skip r) res) : Requested s l res := by
  cases h with
  | complete found near same split line =>
      obtain ⟨k, hk⟩ := line
      exact .complete found near same split ⟨r + k, by rw [hk, Line.skip_skip]⟩
  | too_long far long line =>
      obtain ⟨k, hk⟩ := line
      exact .too_long far long ⟨r + k, by rw [hk, Line.skip_skip]⟩
  | cut none short line =>
      obtain ⟨k, hk⟩ := line
      exact .cut none short ⟨r + k, by rw [hk, Line.skip_skip]⟩

/-- **The loop that reads the request**, by induction on its turns: where the bytes are cut does not
    show. -/
theorem read_request_spec (fuel : Nat) : ∀ (req : List UInt8) (fd : Wire),
    find_header_end req = 0 → req.length ≤ MAX_REQUEST - 1 → MAX_REQUEST - 1 < fuel + req.length →
      Requested (req ++ fd.inbox) fd.line (read_request fuel req fd) := by
  induction fuel with
  | zero =>
      intro req fd _ hle hfuel
      omega
  | succ fuel ih =>
      intro req fd hnone hle hfuel
      rw [read_request]
      by_cases hfull : req.length ≥ MAX_REQUEST - 1
      · rw [if_pos hfull]
        refine .too_long ?_ (by rw [List.length_append]; omega) ⟨0, reject_line fd _⟩
        rcases header_end_later hnone fd.inbox with h | h
        · exact Or.inl h
        · exact Or.inr (by omega)
      rw [if_neg hfull]
      by_cases hnil : fd.inbox = []
      · -- the peer leaves before the request is complete
        obtain ⟨fd', hread, hline⟩ := read_end (MAX_REQUEST - 1 - req.length) hnil
        rw [hread, hnil, List.append_nil]
        dsimp only
        rw [if_pos (Ending.code_le _)]
        exact .cut hnone (by omega) ⟨0, hline⟩
      · obtain ⟨r, fd', hpos, hroom, hlen, hread, hline⟩ :=
          read_more (show 0 < MAX_REQUEST - 1 - req.length by omega) hnil
        have hinbox : fd'.inbox = fd.inbox.drop r := congrArg Line.input hline
        have hbytes : (req ++ fd.inbox.take r).length = req.length + r := by
          rw [List.length_append, List.length_take, Nat.min_eq_left hlen]
        have hsplit : req ++ fd.inbox = (req ++ fd.inbox.take r) ++ fd'.inbox := by
          rw [hinbox, List.append_assoc, List.take_append_drop]
        rw [hread]
        dsimp only
        rw [if_neg (by omega)]
        by_cases hfound : find_header_end (req ++ fd.inbox.take r) = 0
        · rw [if_pos hfound, hsplit]
          have hrest := ih (req ++ fd.inbox.take r) fd' hfound (by omega) (by omega)
          rw [hline] at hrest
          exact hrest.after
        · rw [if_neg hfound]
          obtain ⟨hsame, hnear⟩ := header_end_append hfound fd'.inbox
          rw [← hsplit] at hsame
          exact .complete (by rw [hsame]; exact hfound) (by rw [hsame]; omega) hsame.symm hsplit
            ⟨r, hline⟩

/-! ## §5. The handshake. -/

/-- The key of a request that is in order, by the lines of its text. -/
def upgrade_key (text : List UInt8) : Option (List UInt8) :=
  match header text (ascii "Sec-WebSocket-Key") with
  | none => none
  | some key =>
    if text.take 4 = ascii "GET " ∧
        (header text (ascii "Upgrade")).map (List.map lower) = some (ascii "websocket") ∧
        (header text (ascii "Sec-WebSocket-Version")).map (List.map lower) = some (ascii "13") ∧
        0 < key.length ∧ key.length ≤ 256 then some key
    else none

/-- The text of a request: its bytes up to a NUL, without the last one. -/
def request_text (request : List UInt8) : List UInt8 :=
  (request.take (request.length - 1)).takeWhile fun b => b ≠ 0

/-- What the bytes that arrive are to the handshake. -/
inductive Heard where
  /-- A request in order, and what follows it. -/
  | upgrade (key : List UInt8) (rest : List UInt8)
  | turned_down (status : List UInt8)
  /-- The peer left first. -/
  | nothing
  deriving DecidableEq, Repr

def hear (s : List UInt8) : Heard :=
  let n := find_header_end s
  if n ≠ 0 ∧ n ≤ MAX_REQUEST - 1 then
    match upgrade_key (request_text (s.take n)) with
    | some key => .upgrade key (s.drop n)
    | none => .turned_down (ascii "400 Bad Request")
  else if MAX_REQUEST - 1 ≤ s.length then .turned_down (ascii "431 Request Header Fields Too Large")
  else .nothing

/-- The accept value for a key. -/
def accept_value (key : List UInt8) : List UInt8 := text (sha1 (key ++ WS_MAGIC))

theorem header_is_spec (name : List UInt8) (hname : Plain name) (text want : List UInt8)
    (hwant : want.map lower = want) :
    header_is text name want = true ↔ (header text name).map (List.map lower) = some want := by
  unfold header_is
  rw [find_header_spec hname]
  cases header text name with
  | none => simp
  | some v =>
      rw [decide_eq_true_eq, Option.map_some, Option.some.injEq]
      constructor
      · rintro ⟨hlen, hsame⟩
        rw [same_letters, decide_eq_true_eq, List.take_length, hlen, List.take_length, hwant] at hsame
        exact hsame
      · intro h
        have hlen : v.length = want.length := by rw [← h, List.length_map]
        refine ⟨hlen, ?_⟩
        rw [same_letters, decide_eq_true_eq, List.take_length, hlen, List.take_length, hwant]
        exact h

/-- **The checks of the request**, by its lines. -/
theorem accepted_spec (text : List UInt8) : accepted text = upgrade_key text := by
  unfold accepted upgrade_key
  rw [find_header_spec (by decide)]
  cases header text (ascii "Sec-WebSocket-Key") with
  | none => rfl
  | some key =>
      dsimp only
      simp only [header_is_spec (ascii "Upgrade") (by decide) text (ascii "websocket") (by decide),
        header_is_spec (ascii "Sec-WebSocket-Version") (by decide) text (ascii "13") (by decide)]

/-- The response to a key, in its buffers. -/
theorem response_fits (key : List UInt8) :
    ∃ r : Int, ¬ r < 0 ∧ ws_base64 (ws_sha1 (key ++ WS_MAGIC)) 64 = (r, accept_value key ++ [0]) ∧
      (accept_value key ++ [0]).takeWhile (fun b => decide (b ≠ 0)) = accept_value key ∧
      (switching (accept_value key)).length < 256 := by
  have hlen : (sha1 (key ++ WS_MAGIC)).length = 20 := sha1_length _
  have htext : (accept_value key).length = 28 := by rw [accept_value, text_length, hlen]
  refine ⟨to_int (accept_value key).length, ?_, ?_, ?_, ?_⟩
  · rw [htext]
    decide
  · rw [ws_sha1_eq]
    rw [ws_base64_room (by rw [hlen]; decide), if_pos (by rw [hlen]; decide)]
    rfl
  · have hall : ∀ b ∈ accept_value key, decide (b ≠ 0) = true :=
      fun b hb => decide_eq_true (text_without (by decide) _ b hb)
    rw [List.takeWhile_append_of_pos hall]
    simp
  · rw [switching, List.length_append, List.length_append, htext]
    decide

/-- What the handshake does with the bytes that arrive. -/
inductive Answered (arg : Wire) : Int × Conn → Heard → Prop
  | upgraded {rc : Int} {c : Conn} {key rest : List UInt8}
    (line : c.line = { arg.line with input := rest }.send (switching (accept_value key)))
    (idle : c.msg_op = -1)
    (told : rc = if (switching (accept_value key)).length ≤ arg.room then 0 else -1) :
    Answered arg (rc, c) (.upgrade key rest)
  | rejected {c : Conn} {status : List UInt8}
    (line : ∃ k, c.fd.line = (arg.line.skip k).send (rejection status)) :
    Answered arg (-1, c) (.turned_down status)
  | left {c : Conn} (line : ∃ k, c.fd.line = arg.line.skip k) : Answered arg (-1, c) .nothing

/-- The text that the checks see. -/
theorem header_text_eq {req : List UInt8} (more : List UInt8) {n : Nat} (hn : n ≤ req.length) :
    header_text req n = request_text ((req ++ more).take n) := by
  have hlen : ((req ++ more).take n).length = n := by
    rw [List.length_take, List.length_append]
    omega
  have htake : ((req ++ more).take n).take (n - 1) = req.take (n - 1) := by
    rw [List.take_take, Nat.min_eq_left (by omega), List.take_append_of_le_length (by omega)]
  rw [header_text, request_text, hlen, htake]

theorem send_response_spec (c : Conn) {resp : List UInt8} (h : resp.length < 256) :
    ∃ fd, send_response c resp = (if resp.length ≤ c.line.room then 0 else -1, { c with fd := fd }) ∧
      { c with fd := fd }.line = c.line.send resp := by
  obtain ⟨fd, hwrite, hline⟩ := write_spec c.fd resp
  refine ⟨fd, ?_, sent_line hline⟩
  rw [send_response, if_neg (Nat.not_le.mpr h), hwrite]
  show (if (if resp.length ≤ c.fd.room then (resp.length : Int) else -1) < 0 then (-1 : Int) else 0, _) =
    (if resp.length ≤ c.fd.room then 0 else -1, _)
  split_ifs
  all_goals first | rfl | omega

-- the value is a variable here: its bytes are not to be computed
theorem respond_eq (c : Conn) (key : List UInt8) :
    respond c key = send_response c (switching (accept_value key)) := by
  obtain ⟨r, hr, haccept, hstring, -⟩ := response_fits key
  generalize accept_value key = accept at haccept hstring ⊢
  rw [respond, haccept]
  dsimp only
  rw [if_neg hr, hstring]

/-- A complete request. -/
theorem complete_answers {arg fd : Wire} {req : List UInt8} (hfound : find_header_end req ≠ 0)
    (hsplit : arg.inbox = req ++ fd.inbox) (hline : ∃ k, fd.line = arg.line.skip k) :
    Answered arg
      (match accepted (header_text req (find_header_end req)) with
      | none => (-1, ⟨reject fd (ascii "400 Bad Request"), req, find_header_end req, [], -1⟩)
      | some key => respond ⟨fd, req, find_header_end req, [], -1⟩ key)
      (match upgrade_key (request_text (arg.inbox.take (find_header_end req))) with
      | some key => .upgrade key (arg.inbox.drop (find_header_end req))
      | none => .turned_down (ascii "400 Bad Request")) := by
  obtain ⟨-, hle⟩ := header_end_append hfound []
  obtain ⟨n, hn⟩ : ∃ n, n = find_header_end req := ⟨_, rfl⟩
  obtain ⟨k, hk⟩ := hline
  have hconn : (⟨fd, req, n, [], -1⟩ : Conn).line = { arg.line with input := arg.inbox.drop n } := by
    rw [Conn.line, hk, hsplit, List.drop_append_of_le_length (by omega)]
    have hinput : fd.inbox = arg.inbox.drop k := congrArg Line.input hk
    show Line.mk (req.drop n ++ arg.inbox.drop k) _ _ _ = Line.mk (req.drop n ++ fd.inbox) _ _ _
    rw [← hinput]
    rfl
  rw [← hn, accepted_spec, header_text_eq fd.inbox (by omega), ← hsplit]
  cases upgrade_key (request_text (arg.inbox.take n)) with
  | none => exact .rejected ⟨k, by rw [← hk]; exact reject_line fd _⟩
  | some key =>
      obtain ⟨-, -, -, -, hlen⟩ := response_fits key
      obtain ⟨fd', hsend, hline'⟩ := send_response_spec ⟨fd, req, n, [], -1⟩ hlen
      dsimp only
      rw [respond_eq, hsend]
      refine .upgraded (hline'.trans ?_) rfl ?_
      · rw [hconn]
      · rw [hconn]
        rfl

/-- **The handshake**, on a fresh connection. -/
theorem do_handshake_answers (arg : Wire) :
    Answered arg (do_handshake ⟨arg, [], 0, [], -1⟩) (hear arg.inbox) := by
  have hread := read_request_spec MAX_REQUEST [] arg rfl (by decide) (by decide)
  rw [List.nil_append] at hread
  unfold do_handshake
  generalize read_request MAX_REQUEST [] arg = res at hread ⊢
  cases hread with
  | @complete req fd found near same split line =>
      have hhear : hear arg.inbox =
          match upgrade_key (request_text (arg.inbox.take (find_header_end req))) with
          | some key => .upgrade key (arg.inbox.drop (find_header_end req))
          | none => .turned_down (ascii "400 Bad Request") := by
        rw [same]
        unfold hear
        rw [if_pos ⟨found, near⟩]
      rw [hhear]
      exact complete_answers (by rw [same]; exact found) split line
  | too_long far long line =>
      have hhear : hear arg.inbox = .turned_down (ascii "431 Request Header Fields Too Large") := by
        unfold hear
        rw [if_neg (by rintro ⟨h, h'⟩; omega), if_pos long]
      rw [hhear]
      exact .rejected line
  | cut none short line =>
      have hhear : hear arg.inbox = .nothing := by
        unfold hear
        rw [if_neg (by rintro ⟨h, -⟩; exact h none), if_neg (by omega)]
      rw [hhear]
      exact .left line

/-! ## §6. The connection. -/

/-- What the server says to the bytes that arrive on a connection. -/
inductive Said (s : List UInt8) : List UInt8 → Prop
  | upgrade {key rest t : List UInt8} {fs : List Frame} (heard : hear s = .upgrade key rest)
    (frames : rest = frames_bytes fs ++ t) (last : ¬ Begins t) :
    Said s (switching (accept_value key) ++ answers none fs t)
  | turned_down {status : List UInt8} (heard : hear s = .turned_down status) :
    Said s (rejection status)
  | nothing (heard : hear s = .nothing) : Said s []

theorem conn_fiber_eq (arg : Wire) :
    conn_fiber true true arg =
      match do_handshake ⟨arg, [], 0, [], -1⟩ with
      | (rc, c) => if rc < 0 then some c.fd else (serve (c.stream.length + 1) c).map Conn.fd := rfl

/-- After the upgrade the frames are answered. -/
theorem upgraded_says {arg : Wire} {c : Conn} {rest resp t : List UInt8} {fs : List Frame}
    (hline : c.line = { arg.line with input := rest }.send resp) (hidle : c.msg_op = -1)
    (hrest : rest = frames_bytes fs ++ t) (ht : ¬ Begins t) :
    ∃ fd, (if (if resp.length ≤ arg.room then (0 : Int) else -1) < 0 then some c.fd
        else (serve (c.stream.length + 1) c).map Conn.fd) = some fd ∧
      fd.outbox = arg.outbox ++ (resp ++ answers none fs t).take arg.room := by
  have hstream : c.stream = rest := congrArg Line.input hline
  have hle : fs.length ≤ rest.length := by
    have hbytes := frames_length fs
    rw [hrest, List.length_append]
    omega
  by_cases hfit : resp.length ≤ arg.room
  · obtain ⟨k, c', hserve, hline'⟩ := serve_frames ht fs (c.stream.length + 1) (o := none)
      hidle (by rw [hstream]; exact hrest) (by rw [hstream]; omega)
    refine ⟨c'.fd, ?_, ?_⟩
    · rw [if_pos hfit, if_neg (by decide), hserve]
      rfl
    · have hsaid : c'.line =
          ({ arg.line with input := rest }.skip k).send (resp ++ answers none fs t) := by
        rw [hline', hline, ← Line.send_send]
        rfl
      exact congrArg Line.outbox hsaid
  · refine ⟨c.fd, ?_, ?_⟩
    · rw [if_neg hfit, if_pos (by decide)]
    · have hsaid : c.line = { arg.line with input := rest }.send (resp ++ answers none fs t) := by
        rw [hline]
        exact (Line.send_full (l := { arg.line with input := rest }) (Nat.lt_of_not_le hfit) _).symm
      exact congrArg Line.outbox hsaid

/-- The fiber of a connection that is upgraded. -/
theorem conn_fiber_upgraded {arg : Wire} {key rest t : List UInt8} {fs : List Frame}
    (hheard : hear arg.inbox = .upgrade key rest) (hrest : rest = frames_bytes fs ++ t)
    (ht : ¬ Begins t) :
    ∃ fd, conn_fiber true true arg = some fd ∧
      fd.outbox = arg.outbox ++ (switching (accept_value key) ++ answers none fs t).take arg.room := by
  have hanswered := do_handshake_answers arg
  rw [hheard] at hanswered
  rw [conn_fiber_eq]
  generalize do_handshake ⟨arg, [], 0, [], -1⟩ = res at hanswered ⊢
  cases hanswered with
  | upgraded line idle told =>
      rw [told]
      exact upgraded_says line idle hrest ht

theorem conn_fiber_says (arg : Wire) :
    ∃ out fd, conn_fiber true true arg = some fd ∧ fd.outbox = arg.outbox ++ out.take arg.room ∧
      Said arg.inbox out := by
  have hanswered := do_handshake_answers arg
  rw [conn_fiber_eq]
  generalize do_handshake ⟨arg, [], 0, [], -1⟩ = res at hanswered ⊢
  generalize hheard : hear arg.inbox = heard at hanswered
  cases hanswered with
  | @upgraded rc c key rest line idle told =>
      obtain ⟨fs, t, hrest, ht, -⟩ := decompose rest.length rest (Nat.le_refl _)
      obtain ⟨fd, hend, hout⟩ := upgraded_says line idle hrest ht
      refine ⟨_, fd, ?_, hout, .upgrade hheard hrest ht⟩
      rw [told]
      exact hend
  | @rejected c status line =>
      obtain ⟨k, hk⟩ := line
      exact ⟨_, c.fd, rfl, congrArg Line.outbox hk, .turned_down hheard⟩
  | @left c line =>
      -- nothing is said to a peer that leaves first
      obtain ⟨k, hk⟩ := line
      refine ⟨[], c.fd, rfl, ?_, .nothing hheard⟩
      rw [List.take_nil, List.append_nil]
      exact congrArg Line.outbox hk

/-- **What is said is a function of the bytes**: it is what a peer that takes all of it is handed. -/
theorem Said.unique {s out out' : List UInt8} (h : Said s out) (h' : Said s out') : out = out' := by
  -- a socket with these bytes and room for either text
  obtain ⟨arg, rfl, hroom, hroom'⟩ : ∃ arg : Wire, arg.inbox = s ∧ out.length ≤ arg.room ∧
      out'.length ≤ arg.room :=
    ⟨⟨s, .closed, [], [], max out.length out'.length, []⟩, rfl, Nat.le_max_left _ _,
      Nat.le_max_right _ _⟩
  cases h with
  | upgrade heard frames last =>
      cases h' with
      | upgrade heard' frames' last' =>
          obtain ⟨rfl, rfl⟩ : _ ∧ _ := by simpa using heard.symm.trans heard'
          obtain ⟨fd, hend, hout⟩ := conn_fiber_upgraded heard frames last
          obtain ⟨fd', hend', hout'⟩ := conn_fiber_upgraded heard' frames' last'
          obtain rfl : fd = fd' := Option.some.inj (hend.symm.trans hend')
          rw [hout, List.take_of_length_le hroom, List.take_of_length_le hroom'] at hout'
          exact List.append_cancel_left hout'
      | turned_down heard' => cases heard.symm.trans heard'
      | nothing heard' => cases heard.symm.trans heard'
  | turned_down heard =>
      cases h' with
      | upgrade heard' _ _ => cases heard.symm.trans heard'
      | turned_down heard' =>
          obtain rfl : _ = _ := by simpa using heard.symm.trans heard'
          rfl
      | nothing heard' => cases heard.symm.trans heard'
  | nothing heard =>
      cases h' with
      | upgrade heard' _ _ => cases heard.symm.trans heard'
      | turned_down heard' => cases heard.symm.trans heard'
      | nothing _ => rfl

/-- **A connection**, from its first byte to its last: the fiber comes to its end, and what the peer
    has been handed by then is the beginning of what the server says to the bytes that arrived, up to
    what the peer was ready to take.  Nothing is said when there is no memory for the connection. -/
theorem conn_fiber_spec (conn buffers : Bool) (arg : Wire) :
    ∃ out fd, conn_fiber conn buffers arg = some fd ∧ fd.outbox = arg.outbox ++ out.take arg.room ∧
      (conn = true ∧ buffers = true → Said arg.inbox out) ∧
      (conn = false ∨ buffers = false → out = []) := by
  cases conn with
  | false => exact ⟨[], arg, rfl, by simp, by simp, fun _ => rfl⟩
  | true =>
      cases buffers with
      | false => exact ⟨[], arg, rfl, by simp, by simp, fun _ => rfl⟩
      | true =>
          obtain ⟨out, fd, hend, hout, hsaid⟩ := conn_fiber_says arg
          exact ⟨out, fd, hend, hout, fun _ => hsaid, by simp⟩

end CFiber.Ws
