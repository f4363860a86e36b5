/-
  CFiber.Ws.Upgrade — a client and the server, from the upgrade request to the close frame.

  The self-test's client (`examples/ws_echo/ws_selftest.c`) sends its request and may send frames
  right behind it; it reads the response byte by byte, so that it takes nothing of what follows.

    • `hear_request`     — the server accepts the client's request, for every path;
    • `response_read`    — the client reads the response, and no byte more;
    • `upgrade_and_echo` — a whole connection, as the client sees it.
-/
import Mathlib.Data.List.TakeWhile
import CFiber.Ws.Handshake
import CFiber.Ws.Messages

namespace CFiber.Ws

/-! ## §1. The client. -/

/-- The key of the client. -/
def sample_key : List UInt8 := ascii "dGhlIHNhbXBsZSBub25jZQ=="

/-- What follows the path. -/
def request_rest : List UInt8 :=
  ascii " HTTP/1.1\r\n" ++ ascii "Host: 127.0.0.1\r\n" ++ ascii "Upgrade: websocket\r\n" ++
    ascii "Connection: Upgrade\r\n" ++ ascii "Sec-WebSocket-Key: dGhlIHNhbXBsZSBub25jZQ==\r\n" ++
    ascii "Sec-WebSocket-Version: 13\r\n\r\n"

def upgrade_request (path : List UInt8) : List UInt8 := ascii "GET " ++ path ++ request_rest

/-- `while (total < cap - 1)`, in at most `fuel` turns: what is returned, the bytes read, and the
    socket. -/
def read_upgrade_response (cap : Nat) : (fuel : Nat) → List UInt8 → Wire → Int × List UInt8 × Wire
  | 0, resp, fd => (-1, resp, fd)
  | fuel + 1, resp, fd =>
    if resp.length < cap - 1 then
      match cfiber_ev_read fd 1 with
      | (r, bytes, fd) =>
        if r ≤ 0 then (-1, resp, fd)
        else
          let resp := resp ++ bytes
          if 4 ≤ resp.length ∧ resp.drop (resp.length - 4) = [13, 10, 13, 10] then (0, resp, fd)
          else read_upgrade_response cap fuel resp fd
    else (-1, resp, fd)

/-! ## §2. The end of a header block. -/

/-- No header block ends in `p`, nor across its end. -/
def Open (p : List UInt8) : Prop :=
  find_header_end p = 0 ∧ ∀ k < p.length, p.length ≤ k + 3 → p.getD k 0 ≠ 13

theorem ends_at_right {p s : List UInt8} {i : Nat} (hi : p.length + 3 ≤ i) :
    ends_at (p ++ s) i = ends_at s (i - p.length) := by
  have hget (k : Nat) (hk : p.length ≤ k) : (p ++ s).getD k 0 = s.getD (k - p.length) 0 :=
    List.getD_append_right _ _ _ _ hk
  have h3 : 3 ≤ i ↔ 3 ≤ i - p.length := by omega
  have e3 : i - 3 - p.length = i - p.length - 3 := by omega
  have e2 : i - 2 - p.length = i - p.length - 2 := by omega
  have e1 : i - 1 - p.length = i - p.length - 1 := by omega
  unfold ends_at
  rw [hget (i - 3) (by omega), hget (i - 2) (by omega), hget (i - 1) (by omega), hget i (by omega),
    e3, e2, e1]
  simp only [h3]

/-- The end of the header block behind an open beginning. -/
theorem header_end_open {p s : List UInt8} (hp : Open p) (hs : find_header_end s ≠ 0) :
    find_header_end (p ++ s) = p.length + find_header_end s := by
  obtain ⟨i, hi⟩ := Nat.exists_eq_succ_of_ne_zero hs
  obtain ⟨hlt, hend, hno⟩ := header_end_succ.mp hi
  have hthree : 3 ≤ i := by
    unfold ends_at at hend
    exact (of_decide_eq_true hend).1
  rw [hi]
  show find_header_end (p ++ s) = p.length + i + 1
  refine header_end_succ.mpr ⟨by rw [List.length_append]; omega, ?_, fun j hj => ?_⟩
  · rw [ends_at_right (by omega), Nat.add_sub_cancel_left]
    exact hend
  · by_cases hleft : j < p.length
    · rw [ends_at_append hleft]
      exact header_end_zero.mp hp.1 j hleft
    · by_cases hright : p.length + 3 ≤ j
      · rw [ends_at_right hright]
        exact hno _ (by omega)
      · -- the first of the four bytes is one of the last of `p`
        intro h
        unfold ends_at at h
        obtain ⟨h3, hcr, -⟩ := of_decide_eq_true h
        rw [List.getD_append _ _ _ _ (by omega)] at hcr
        exact hp.2 (j - 3) (by omega) (by omega) hcr

/-- A text that ends where its header block ends, behind an open beginning. -/
theorem header_end_whole {p s : List UInt8} (hp : Open p) (hs : find_header_end s = s.length)
    (hne : s ≠ []) : find_header_end (p ++ s) = (p ++ s).length := by
  have hpos : find_header_end s ≠ 0 := by
    rw [hs]
    exact fun h => hne (List.eq_nil_of_length_eq_zero h)
  rw [header_end_open hp hpos, hs, List.length_append]

/-- Bytes without a carriage return leave the block open. -/
theorem Open.plain {p q : List UInt8} (hp : Open p) (hq : ∀ b ∈ q, b ≠ 13) : Open (p ++ q) := by
  have hright (k : Nat) (hk : p.length ≤ k) (hlt : k < (p ++ q).length) : (p ++ q).getD k 0 ≠ 13 := by
    rw [List.length_append] at hlt
    rw [List.getD_append_right _ _ _ _ hk, List.getD_eq_getElem _ _ (by omega)]
    exact hq _ (List.getElem_mem _)
  have hleft (k : Nat) (hk : k < p.length) (hle : p.length ≤ k + 3) : (p ++ q).getD k 0 ≠ 13 := by
    rw [List.getD_append _ _ _ _ hk]
    exact hp.2 k hk hle
  refine ⟨header_end_zero.mpr fun i hi hend => ?_, fun k hk hle => ?_⟩
  · by_cases hin : i < p.length
    · rw [ends_at_append hin] at hend
      exact header_end_zero.mp hp.1 i hin hend
    · unfold ends_at at hend
      obtain ⟨h3, hcr, -⟩ := of_decide_eq_true hend
      by_cases hcut : i - 3 < p.length
      · exact hleft (i - 3) hcut (by omega) hcr
      · exact hright (i - 3) (by omega) (by omega) hcr
  · rw [List.length_append] at hle
    by_cases hcut : k < p.length
    · exact hleft k hcut (by omega)
    · exact hright k (by omega) hk

/-! ## §3. The request. -/

/-- A path as the client may send it. -/
def Path (path : List UInt8) : Prop := ∀ b ∈ path, b ≠ 0 ∧ b ≠ 13

instance : DecidablePred Path := fun path => List.decidableBAll _ path

/-- Bytes without a carriage return are part of the first line. -/
theorem lines_plain {s : List UInt8} {l : List UInt8} {ls : List (List UInt8)} (hs : lines s = l :: ls)
    (p : List UInt8) (hp : ∀ b ∈ p, b ≠ 13) : lines (p ++ s) = (p ++ l) :: ls := by
  induction p with
  | nil => exact hs
  | cons a p ih =>
      have ih := ih fun b hb => hp b (List.mem_cons_of_mem a hb)
      have ha : a ≠ 13 := hp a List.mem_cons_self
      rw [List.cons_append]
      cases hrest : p ++ s with
      | nil =>
          rw [hrest] at ih
          obtain ⟨hl, hls⟩ := List.cons.inj ih
          rw [← hls, List.cons_append, ← hl]
          rfl
      | cons b t =>
          rw [hrest] at ih
          rw [lines, if_neg (fun h => ha h.1), ih]
          rfl

theorem header_plain {s : List UInt8} (p : List UInt8) (hp : ∀ b ∈ p, b ≠ 13) (name : List UInt8) :
    header (p ++ s) name = header s name := by
  obtain ⟨l, ls, hs⟩ := List.exists_cons_of_ne_nil (lines_ne_nil s)
  unfold header
  rw [lines_plain hs p hp, hs]
  rfl

/-- What follows the path, up to the byte that the server replaces. -/
def request_tail : List UInt8 := request_rest.take (request_rest.length - 1)

theorem request_tail_headers :
    header request_tail (ascii "Sec-WebSocket-Key") = some sample_key ∧
      (header request_tail (ascii "Upgrade")).map (List.map lower) = some (ascii "websocket") ∧
      (header request_tail (ascii "Sec-WebSocket-Version")).map (List.map lower) = some (ascii "13") := by
  decide +kernel

/-- The text of the client's request. -/
theorem request_text_eq {path : List UInt8} (hpath : Path path) :
    request_text (upgrade_request path) = ascii "GET " ++ path ++ request_tail := by
  have hlen : 0 < request_rest.length := by decide +kernel
  have htake : (upgrade_request path).take ((upgrade_request path).length - 1) =
      ascii "GET " ++ path ++ request_tail := by
    have hsum : (upgrade_request path).length - 1 =
        (ascii "GET " ++ path).length + (request_rest.length - 1) := by
      rw [upgrade_request, List.length_append]
      omega
    rw [hsum, upgrade_request, List.take_length_add_append]
    rfl
  rw [request_text, htake, List.takeWhile_eq_self_iff]
  intro b hb
  rw [List.append_assoc] at hb
  rcases List.mem_append.mp hb with hb | hb
  · have hget : ∀ b ∈ ascii "GET ", decide (b ≠ 0) = true := by decide +kernel
    exact hget b hb
  rcases List.mem_append.mp hb with hb | hb
  · exact decide_eq_true (hpath b hb).1
  · have htail : ∀ b ∈ request_tail, decide (b ≠ 0) = true := by decide +kernel
    exact htail b hb

/-- The request ends with its header block. -/
theorem request_end {path : List UInt8} (hpath : Path path) :
    find_header_end (upgrade_request path) = (upgrade_request path).length := by
  have hget : Open (ascii "GET ") := ⟨by decide, by decide⟩
  exact header_end_whole (hget.plain fun b hb => (hpath b hb).2) (by decide +kernel) (by decide +kernel)

/-- **The client's request is accepted**, whatever its path and whatever follows it. -/
theorem hear_request {path : List UInt8} (hpath : Path path)
    (hlen : (upgrade_request path).length < MAX_REQUEST) (rest : List UInt8) :
    hear (upgrade_request path ++ rest) = .upgrade sample_key rest := by
  have hend := request_end hpath
  have hpos : 0 < (upgrade_request path).length := by
    rw [upgrade_request, List.length_append, List.length_append]
    exact Nat.lt_of_lt_of_le (by decide : 0 < (ascii "GET ").length) (by omega)
  obtain ⟨hsame, -⟩ := header_end_append (by omega : find_header_end (upgrade_request path) ≠ 0) rest
  have hplain : ∀ b ∈ ascii "GET " ++ path, b ≠ 13 := by
    intro b hb
    rcases List.mem_append.mp hb with hb | hb
    · have hget : ∀ b ∈ ascii "GET ", b ≠ 13 := by decide +kernel
      exact hget b hb
    · exact (hpath b hb).2
  have hkey : upgrade_key (request_text (upgrade_request path)) = some sample_key := by
    obtain ⟨h₁, h₂, h₃⟩ := request_tail_headers
    unfold upgrade_key
    rw [request_text_eq hpath, header_plain _ hplain, header_plain _ hplain, header_plain _ hplain, h₁]
    dsimp only
    exact if_pos ⟨rfl, h₂, h₃, by decide, by decide⟩
  unfold hear
  rw [hsame, hend]
  dsimp only
  rw [List.take_left, List.drop_left, hkey]
  exact if_pos ⟨by omega, by omega⟩

/-! ## §4. The response. -/

/-- What the client looks at is the end of a header block. -/
theorem last_four (l : List UInt8) :
    (4 ≤ l.length ∧ l.drop (l.length - 4) = [13, 10, 13, 10]) ↔ ends_at l (l.length - 1) = true := by
  unfold ends_at
  rw [decide_eq_true_eq]
  by_cases hlen : 4 ≤ l.length
  · obtain ⟨p, hp⟩ : ∃ p, p = l.take (l.length - 4) := ⟨_, rfl⟩
    have hsize : (l.drop (l.length - 4)).length = 4 := by
      rw [List.length_drop]
      omega
    have hcut : p.length = l.length - 4 := by
      rw [hp, List.length_take]
      omega
    have hget (k : Nat) (hk : p.length ≤ k) :
        l.getD k 0 = (l.drop (l.length - 4)).getD (k - p.length) 0 := by
      rw [List.getD_eq_getElem?_getD, List.getD_eq_getElem?_getD, List.getElem?_drop]
      congr 2
      omega
    rw [hget (l.length - 1 - 3) (by omega), hget (l.length - 1 - 2) (by omega),
      hget (l.length - 1 - 1) (by omega), hget (l.length - 1) (by omega),
      show l.length - 1 - 3 - p.length = 0 by omega, show l.length - 1 - 2 - p.length = 1 by omega,
      show l.length - 1 - 1 - p.length = 2 by omega, show l.length - 1 - p.length = 3 by omega]
    match l.drop (l.length - 4), hsize with
    | [a, b, c, d], _ => simp [hlen, show 3 ≤ l.length - 1 by omega]
  · exact iff_of_false (fun h => hlen h.1) (fun h => hlen (by omega))

/-- The client's loop, by induction on its turns: `more` is still to be read. -/
theorem response_from {s rest : List UInt8} {cap : Nat} (hend : find_header_end s = s.length)
    (hcap : s.length < cap) (fuel : Nat) : ∀ (resp more : List UInt8) (fd : Wire),
    s = resp ++ more → more ≠ [] → more.length ≤ fuel → fd.inbox = more ++ rest →
      ∃ fd', read_upgrade_response cap fuel resp fd = (0, s, fd') ∧
        fd'.line = fd.line.skip more.length := by
  induction fuel with
  | zero =>
      intro resp more fd _ hne hle
      exact absurd (List.eq_nil_of_length_eq_zero (Nat.le_zero.mp hle)) hne
  | succ fuel ih =>
      intro resp more fd hs hne hle hfd
      obtain ⟨b, more, rfl⟩ := List.exists_cons_of_ne_nil hne
      have hsplit : s = (resp ++ [b]) ++ more := by rw [hs, List.append_assoc]; rfl
      have hlen : s.length = resp.length + more.length + 1 := by
        rw [hs, List.length_append, List.length_cons, Nat.add_assoc]
      have hnonempty : fd.inbox ≠ [] := by rw [hfd]; exact List.cons_ne_nil _ _
      obtain ⟨r, fd₁, hpos, hone, -, hread, hline⟩ := read_more Nat.one_pos hnonempty
      obtain rfl : r = 1 := by omega
      have htake : fd.inbox.take 1 = [b] := by rw [hfd]; rfl
      have hrest : fd₁.inbox = more ++ rest := @inbox_behind fd fd₁ [b] _ hfd hline
      rw [read_upgrade_response, if_pos (by omega), hread, htake]
      dsimp only
      rw [if_neg (by decide)]
      obtain ⟨hlast, hdone, hno⟩ := header_end_succ.mp (hend.trans hlen)
      have hfour := last_four (resp ++ [b])
      rw [List.length_append, List.length_singleton, Nat.add_sub_cancel] at hfour
      have hin : resp.length < (resp ++ [b]).length := by
        rw [List.length_append, List.length_singleton]
        exact Nat.lt_succ_self _
      have hat : ends_at s resp.length = ends_at (resp ++ [b]) resp.length := by
        rw [hsplit]
        exact ends_at_append hin more
      cases more with
      | nil =>
          -- the last byte
          rw [List.length_nil, Nat.add_zero, hat] at hdone
          rw [if_pos (by rw [List.length_append]; exact hfour.mpr hdone)]
          exact ⟨fd₁, by rw [hsplit, List.append_nil], hline⟩
      | cons a more =>
          have hgoes : ¬ ends_at (resp ++ [b]) resp.length = true := by
            rw [← hat]
            exact hno resp.length (by rw [List.length_cons]; omega)
          rw [List.length_cons, Nat.succ_le_succ_iff] at hle
          rw [if_neg (by rw [List.length_append]; exact fun h => hgoes (hfour.mp h))]
          obtain ⟨fd₂, hloop, hline₂⟩ :=
            ih (resp ++ [b]) (a :: more) fd₁ hsplit (List.cons_ne_nil a more) hle hrest
          refine ⟨fd₂, hloop, ?_⟩
          rw [hline₂, hline, Line.skip_skip, List.length_cons (a := b), Nat.add_comm 1]

/-- A response ends with its header block. -/
theorem switching_end {accept : List UInt8} (h : ∀ b ∈ accept, b ≠ 13) :
    find_header_end (switching accept) = (switching accept).length := by
  have hopen : Open switching_head := ⟨by decide +kernel, by decide +kernel⟩
  exact header_end_whole (hopen.plain h) (by decide) (by decide)

/-- **The client reads the response**, and nothing of what follows it. -/
theorem response_read {accept rest : List UInt8} {cap : Nat} (h : ∀ b ∈ accept, b ≠ 13)
    (hcap : (switching accept).length < cap) {fd : Wire} (hfd : fd.inbox = switching accept ++ rest) :
    ∃ fd', read_upgrade_response cap cap [] fd = (0, switching accept, fd') ∧ fd'.inbox = rest := by
  have hne : switching accept ≠ [] := by
    intro hnil
    have hlen := congrArg List.length hnil
    rw [switching, List.length_append, List.length_append] at hlen
    exact absurd hlen (by simp [ascii])
  obtain ⟨fd', hread, hline⟩ := response_from (switching_end h) hcap cap [] (switching accept) fd rfl hne
    (by omega) hfd
  exact ⟨fd', hread, inbox_behind hfd hline⟩

/-! ## §5. A whole connection. -/

/-- **From the upgrade to the close frame**: a client sends its request with any path, right behind it
    messages in fragments with control frames between them and a close frame, and after that whatever
    it likes.  The fiber comes to its end, and the client, reading what it was handed, gets the
    response with the accept value for its key and then its echoes, in order, and nothing else.  Where
    the bytes were cut on their way to the server and back does not show. -/
theorem upgrade_and_echo {path : List UInt8} (hpath : Path path)
    (hlen : (upgrade_request path).length < 256) (ms : List Message) (close : Frame)
    (hclose : close.opcode = OP_CLOSE) (rest : List UInt8) {arg : Wire}
    (harg : arg.inbox = upgrade_request path ++
      (frames_bytes (ms.flatMap Message.frames ++ [close]) ++ rest))
    (hroom : (switching (accept_value sample_key) ++ replies_bytes (echo ms close)).length ≤ arg.room) :
    ∃ fd, conn_fiber true true arg = some fd ∧
      fd.outbox = arg.outbox ++ (switching (accept_value sample_key) ++ replies_bytes (echo ms close)) ∧
      ∀ w : Wire, w.inbox = switching (accept_value sample_key) ++ replies_bytes (echo ms close) →
        ∃ w' w'', read_upgrade_response 2048 2048 [] w = (0, switching (accept_value sample_key), w') ∧
          client_recvs MAX_PAYLOAD (echo ms close).length w' = ((echo ms close).map some, w'') ∧
          w''.inbox = [] := by
  obtain ⟨fs, t, hframes, ht, hanswers⟩ := echo_frames ms close hclose rest
  have hheard : hear arg.inbox =
      .upgrade sample_key (frames_bytes (ms.flatMap Message.frames ++ [close]) ++ rest) := by
    rw [harg]
    exact hear_request hpath (Nat.lt_trans hlen (by decide)) _
  obtain ⟨fd, hend, hout⟩ := conn_fiber_upgraded hheard hframes ht
  obtain ⟨-, -, -, -, hfits⟩ := response_fits sample_key
  have hplain : ∀ b ∈ accept_value sample_key, b ≠ 13 := text_without (by decide) _
  generalize accept_value sample_key = accept at hroom hout hfits hplain ⊢
  refine ⟨fd, hend, ?_, fun w hw => ?_⟩
  · rw [hout, hanswers, List.take_of_length_le hroom]
  · obtain ⟨w', hread, hleft⟩ := response_read hplain (Nat.lt_trans hfits (by decide : 256 < 2048)) hw
    obtain ⟨w'', hreads, hnothing⟩ := client_reads_echo ms close hleft
    exact ⟨w', w'', hread, hreads, hnothing⟩

/-- A client of the self-test, all of whose bytes arrive before the server reads. -/
def visited : Wire :=
  ⟨upgrade_request (ascii "/chat") ++ (frames_bytes ([hello].flatMap Message.frames ++ [bye]) ++ []),
    .closed, [.bytes 100, .not_ready, .interrupted], [], 400, [.bytes 10]⟩

theorem upgrade_and_echo_hello :
    ∃ fd, conn_fiber true true visited = some fd ∧
      fd.outbox = visited.outbox ++
        (switching (accept_value sample_key) ++ replies_bytes (echo [hello] bye)) ∧
      ∀ w : Wire, w.inbox = switching (accept_value sample_key) ++ replies_bytes (echo [hello] bye) →
        ∃ w' w'', read_upgrade_response 2048 2048 [] w = (0, switching (accept_value sample_key), w') ∧
          client_recvs MAX_PAYLOAD (echo [hello] bye).length w' = ((echo [hello] bye).map some, w'') ∧
          w''.inbox = [] := by
  refine upgrade_and_echo (by decide : Path (ascii "/chat")) (by decide +kernel) [hello] bye rfl [] rfl ?_
  have hreplies : (replies_bytes (echo [hello] bye)).length ≤ 100 := by decide +kernel
  obtain ⟨-, -, -, -, hfits⟩ := response_fits sample_key
  show _ ≤ 400
  rw [List.length_append]
  omega

-- the published example of a key and its accept value
example : ws_base64 (ws_sha1 (sample_key ++ WS_MAGIC)) 64 =
    (28, ascii "s3pPLMBiTxaQ9kYGzzhZRbK+xOo=" ++ [0]) := by decide +kernel

end CFiber.Ws
