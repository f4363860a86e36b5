/-
  CFiber.Base.Linked — intrusive linked lists over link maps.

  The cells of an intrusive list live in memory; a link field of the cell type is a map
  `α → Option α` (`none` is the null pointer).  Two shapes are developed:

    • `Fifo nx hd tl xs` — a singly linked queue with head and tail pointers, threaded through
      `nx`, whose cells are exactly `xs` in order;
    • `DList nx pv hd xs` — a doubly linked list with a head pointer, threaded through `nx` and
      `pv`, whose cells are exactly `xs` in order.

  Both include `xs.Nodup`: a represented list is acyclic.  The rules say what the usual link
  surgery does to the represented list: append at the tail, remove the head, push at the head,
  unlink an arbitrary member.  `walk` is the loop `for (c = head; c; c = c->next)`.
-/
import Mathlib.Logic.Function.Basic
import Mathlib.Data.List.Nodup

namespace CFiber.Base

variable {α : Type*} [DecidableEq α]

/-! ## §1. Chains and the pointer walk. -/

/-- Consecutive cells are linked by `nx`, and the last link is null. -/
def Linked (nx : α → Option α) : List α → Prop
  | [] => True
  | x :: xs => nx x = xs.head? ∧ Linked nx xs

omit [DecidableEq α] in
theorem Linked.congr {nx nx' : α → Option α} {xs : List α} (h : ∀ x ∈ xs, nx' x = nx x)
    (hl : Linked nx xs) : Linked nx' xs := by
  induction xs with
  | nil => trivial
  | cons x xs ih =>
      refine ⟨?_, ih (fun y hy => h y (List.mem_cons_of_mem x hy)) hl.2⟩
      rw [h x List.mem_cons_self]
      exact hl.1

/-- The cells met by following `nx` from `hd`, at most `fuel` of them. -/
def walk (nx : α → Option α) : Nat → Option α → List α
  | 0, _ => []
  | _ + 1, none => []
  | fuel + 1, some x => x :: walk nx fuel (nx x)

omit [DecidableEq α] in
/-- **A walk with enough fuel visits exactly the represented list.** -/
theorem walk_eq {nx : α → Option α} {xs : List α} {fuel : Nat} (hl : Linked nx xs)
    (hf : xs.length ≤ fuel) : walk nx fuel xs.head? = xs := by
  induction xs generalizing fuel with
  | nil => cases fuel <;> rfl
  | cons x xs ih =>
      cases fuel with
      | zero => simp at hf
      | succ fuel =>
          simp only [List.head?_cons, walk, hl.1]
          rw [ih hl.2 (by simpa using hf)]

/-! ## §2. The queue: append at the tail, remove the head. -/

/-- A singly linked queue with head and tail pointers. -/
structure Fifo (nx : α → Option α) (hd tl : Option α) (xs : List α) : Prop where
  head : hd = xs.head?
  tail : tl = xs.getLast?
  links : Linked nx xs
  nodup : xs.Nodup

omit [DecidableEq α] in
theorem Fifo.empty (nx : α → Option α) : Fifo nx none none [] :=
  ⟨rfl, rfl, trivial, List.nodup_nil⟩

omit [DecidableEq α] in
theorem Fifo.congr {nx nx' : α → Option α} {hd tl : Option α} {xs : List α}
    (h : ∀ x ∈ xs, nx' x = nx x) (hq : Fifo nx hd tl xs) : Fifo nx' hd tl xs :=
  ⟨hq.head, hq.tail, hq.links.congr h, hq.nodup⟩

omit [DecidableEq α] in
/-- The links determine the represented queue. -/
theorem Fifo.unique {nx : α → Option α} {hd tl : Option α} {xs ys : List α}
    (hx : Fifo nx hd tl xs) (hy : Fifo nx hd tl ys) : xs = ys := by
  have h₁ := walk_eq hx.links (Nat.le_add_right xs.length ys.length)
  have h₂ := walk_eq hy.links (Nat.le_add_left ys.length xs.length)
  rw [← hx.head] at h₁
  rw [← hy.head] at h₂
  exact h₁.symm.trans h₂

/-- Linking a fresh cell behind the last one. -/
theorem Linked.snoc {nx : α → Option α} {xs : List α} {t x : α} (hl : Linked nx (xs ++ [t]))
    (hnd : (xs ++ [t]).Nodup) (hx : x ∉ xs ++ [t]) :
    Linked (Function.update (Function.update nx x none) t (some x)) (xs ++ [t, x]) := by
  have htx : x ≠ t := fun h => hx (by simp [h])
  induction xs with
  | nil =>
      refine ⟨by simp, ?_, trivial⟩
      rw [Function.update_of_ne htx, Function.update_self]
      rfl
  | cons y ys ih =>
      have hyt : y ≠ t := by
        rintro rfl
        simp at hnd
      have hyx : y ≠ x := by
        rintro rfl
        simp at hx
      refine ⟨?_, ih hl.2 (List.Nodup.of_cons hnd) (fun h => hx (List.mem_cons_of_mem y h))⟩
      rw [Function.update_of_ne hyt, Function.update_of_ne hyx]
      have hy : nx y = (ys ++ [t]).head? := hl.1
      rw [hy]
      cases ys <;> rfl

/-- The links after `x` is appended behind the tail `tl`. -/
def snocNext (nx : α → Option α) (tl : Option α) (x : α) : α → Option α :=
  match tl with
  | some t => Function.update (Function.update nx x none) t (some x)
  | none => Function.update nx x none

/-- The head after an append: the new cell when the queue was empty. -/
def snocHead (hd tl : Option α) (x : α) : Option α :=
  match tl with
  | some _ => hd
  | none => some x

/-- The tail after the head is removed and `hd` is the new head. -/
def popTail (hd tl : Option α) : Option α :=
  match hd with
  | some _ => tl
  | none => none

/-- **Append.**  The link surgery of an enqueue appends the cell to the represented queue. -/
theorem Fifo.push {nx : α → Option α} {hd tl : Option α} {xs : List α} {x : α}
    (hq : Fifo nx hd tl xs) (hx : x ∉ xs) :
    Fifo (snocNext nx tl x) (snocHead hd tl x) (some x) (xs ++ [x]) := by
  rcases List.eq_nil_or_concat xs with rfl | ⟨ys, t, rfl⟩
  · obtain rfl : tl = none := hq.tail
    exact ⟨rfl, rfl, ⟨by simp [snocNext], trivial⟩, by simp⟩
  · obtain rfl : tl = some t := by rw [hq.tail]; simp
    have hnd := hq.nodup
    have hlinks := hq.links
    rw [List.concat_eq_append] at hx hnd hlinks
    refine ⟨?_, by simp, ?_, ?_⟩
    · have hhd : hd = (ys.concat t).head? := hq.head
      simp only [snocHead, hhd, List.concat_eq_append]
      cases ys <;> rfl
    · rw [List.concat_eq_append, List.append_assoc]
      exact Linked.snoc hlinks hnd hx
    · rw [List.concat_eq_append]
      refine List.nodup_append.mpr ⟨hnd, by simp, ?_⟩
      rintro a ha b hb rfl
      simp only [List.mem_singleton] at hb
      exact hx (hb ▸ ha)

/-- **Remove the head.**  The link surgery of a dequeue drops the first cell. -/
theorem Fifo.pop {nx : α → Option α} {hd tl : Option α} {x : α} {xs : List α}
    (hq : Fifo nx hd tl (x :: xs)) :
    Fifo (Function.update nx x none) (nx x) (popTail (nx x) tl) xs := by
  have hnx : nx x = xs.head? := hq.links.1
  have hx : x ∉ xs := (List.nodup_cons.mp hq.nodup).1
  refine ⟨hnx, ?_, ?_, (List.nodup_cons.mp hq.nodup).2⟩
  · rw [hnx, hq.tail]
    cases xs with
    | nil => rfl
    | cons y ys => simp [popTail, List.getLast?_cons_cons]
  · refine Linked.congr (fun y hy => ?_) hq.links.2
    have hyx : y ≠ x := fun h => hx (h ▸ hy)
    exact Function.update_of_ne hyx _ _

/-! ## §3. The doubly linked list: push at the head, unlink a member. -/

/-- The cells of `xs` are linked both ways; `p` is what the first cell's `pv` holds. -/
def DLinked (nx pv : α → Option α) : Option α → List α → Prop
  | _, [] => True
  | p, x :: xs => pv x = p ∧ nx x = xs.head? ∧ DLinked nx pv (some x) xs

/-- A doubly linked list with a head pointer. -/
structure DList (nx pv : α → Option α) (hd : Option α) (xs : List α) : Prop where
  head : hd = xs.head?
  links : DLinked nx pv none xs
  nodup : xs.Nodup

omit [DecidableEq α] in
theorem DList.empty (nx pv : α → Option α) : DList nx pv none [] :=
  ⟨rfl, trivial, List.nodup_nil⟩

omit [DecidableEq α] in
theorem DLinked.congr {nx pv nx' pv' : α → Option α} {p : Option α} {xs : List α}
    (hn : ∀ x ∈ xs, nx' x = nx x) (hp : ∀ x ∈ xs, pv' x = pv x) (h : DLinked nx pv p xs) :
    DLinked nx' pv' p xs := by
  induction xs generalizing p with
  | nil => trivial
  | cons x xs ih =>
      refine ⟨?_, ?_, ih (fun y hy => hn y (List.mem_cons_of_mem x hy))
        (fun y hy => hp y (List.mem_cons_of_mem x hy)) h.2.2⟩
      · rw [hp x List.mem_cons_self]; exact h.1
      · rw [hn x List.mem_cons_self]; exact h.2.1

omit [DecidableEq α] in
theorem DList.congr {nx pv nx' pv' : α → Option α} {hd : Option α} {xs : List α}
    (hn : ∀ x ∈ xs, nx' x = nx x) (hp : ∀ x ∈ xs, pv' x = pv x) (h : DList nx pv hd xs) :
    DList nx' pv' hd xs :=
  ⟨h.head, h.links.congr hn hp, h.nodup⟩

omit [DecidableEq α] in
theorem DLinked.linked {nx pv : α → Option α} {p : Option α} {xs : List α}
    (h : DLinked nx pv p xs) : Linked nx xs := by
  induction xs generalizing p with
  | nil => trivial
  | cons x xs ih => exact ⟨h.2.1, ih h.2.2⟩

/-- The backward links after `x` is pushed in front of the head `hd`. -/
def consPrev (pv : α → Option α) (hd : Option α) (x : α) : α → Option α :=
  match hd with
  | some y => Function.update (Function.update pv x none) y (some x)
  | none => Function.update pv x none

/-- **Push at the head.** -/
theorem DList.push {nx pv : α → Option α} {hd : Option α} {xs : List α} {x : α}
    (h : DList nx pv hd xs) (hx : x ∉ xs) :
    DList (Function.update nx x hd) (consPrev pv hd x) (some x) (x :: xs) := by
  refine ⟨rfl, ?_, List.nodup_cons.mpr ⟨hx, h.nodup⟩⟩
  cases xs with
  | nil =>
      obtain rfl : hd = none := h.head
      exact ⟨by simp [consPrev], by simp, trivial⟩
  | cons y ys =>
      obtain rfl : hd = some y := h.head
      have hxy : x ≠ y := fun e => hx (by simp [e])
      have hy : y ∉ ys := (List.nodup_cons.mp h.nodup).1
      obtain ⟨-, hny, hrest⟩ := h.links
      refine ⟨by simp [consPrev, Function.update_of_ne hxy], by simp, by simp [consPrev], ?_, ?_⟩
      · rw [Function.update_of_ne (Ne.symm hxy)]; exact hny
      · have hzx : ∀ z ∈ ys, z ≠ x := fun z hz e => hx (by simp [← e, hz])
        have hzy : ∀ z ∈ ys, z ≠ y := fun z hz e => hy (e ▸ hz)
        refine hrest.congr (fun z hz => Function.update_of_ne (hzx z hz) _ _) (fun z hz => ?_)
        simp only [consPrev]
        rw [Function.update_of_ne (hzy z hz), Function.update_of_ne (hzx z hz)]

omit [DecidableEq α] in
/-- The cell before `x`, as its `pv` records it. -/
theorem DLinked.pv_mid {nx pv : α → Option α} {p : Option α} {as bs : List α} {x : α}
    (h : DLinked nx pv p (as ++ x :: bs)) : pv x = as.getLast?.or p := by
  induction as generalizing p with
  | nil => simpa using h.1
  | cons a as ih =>
      have h2 : DLinked nx pv (some a) (as ++ x :: bs) := h.2.2
      rw [ih h2]
      cases as with
      | nil => rfl
      | cons b bs => simp [List.getLast?_cons]

omit [DecidableEq α] in
theorem DLinked.nx_mid {nx pv : α → Option α} {p : Option α} {as bs : List α} {x : α}
    (h : DLinked nx pv p (as ++ x :: bs)) : nx x = bs.head? := by
  induction as generalizing p with
  | nil => exact h.2.1
  | cons a as ih => exact ih h.2.2

/-- The forward links after `x` is unlinked: its predecessor, if any, skips it. -/
def unlinkNext (nx pv : α → Option α) (x : α) : α → Option α :=
  match pv x with
  | some q => Function.update nx q (nx x)
  | none => nx

/-- The backward links after `x` is unlinked: its successor, if any, skips it. -/
def unlinkPrev (nx pv : α → Option α) (x : α) : α → Option α :=
  match nx x with
  | some n => Function.update pv n (pv x)
  | none => pv

/-- The head after `x` is unlinked: its successor when `x` was the first cell. -/
def unlinkHead (nx pv : α → Option α) (hd : Option α) (x : α) : Option α :=
  match pv x with
  | some _ => hd
  | none => nx x

theorem unlinkNext_of_ne {nx pv : α → Option α} {x y : α} (h : pv x ≠ some y) :
    unlinkNext nx pv x y = nx y := by
  cases hq : pv x with
  | none => simp [unlinkNext, hq]
  | some q =>
      have hyq : y ≠ q := fun e => h (e ▸ hq)
      simp [unlinkNext, hq, Function.update_of_ne hyq]

theorem unlinkPrev_of_ne {nx pv : α → Option α} {x y : α} (h : nx x ≠ some y) :
    unlinkPrev nx pv x y = pv y := by
  cases hn : nx x with
  | none => simp [unlinkPrev, hn]
  | some n =>
      have hyn : y ≠ n := fun e => h (e ▸ hn)
      simp [unlinkPrev, hn, Function.update_of_ne hyn]

theorem unlinkNext_pred {nx pv : α → Option α} {x y : α} (h : pv x = some y) :
    unlinkNext nx pv x y = nx x := by
  simp [unlinkNext, h]

theorem unlinkPrev_succ {nx pv : α → Option α} {x y : α} (h : nx x = some y) :
    unlinkPrev nx pv x y = pv x := by
  simp [unlinkPrev, h]

/-- Unlinking `x` from `as ++ x :: bs`, with the induction on the cells before it. -/
theorem DLinked.unlink {nx pv : α → Option α} {p : Option α} {as bs : List α} {x : α}
    (h : DLinked nx pv p (as ++ x :: bs)) (hnd : (as ++ x :: bs).Nodup)
    (hp : ∀ q, p = some q → q ∉ as ++ x :: bs) :
    DLinked (unlinkNext nx pv x) (unlinkPrev nx pv x) p (as ++ bs) := by
  have hpv := h.pv_mid
  have hnx := h.nx_mid
  induction as generalizing p with
  | nil =>
      obtain ⟨hx, -, hrest⟩ := h
      have hnb : x ∉ bs := (List.nodup_cons.mp hnd).1
      -- the cells behind `x` keep their links, except the first one's `pv`
      have hnext : ∀ y ∈ bs, unlinkNext nx pv x y = nx y := fun y hy =>
        unlinkNext_of_ne (fun e => hp y (by rw [← hx, e]) (by simp [hy]))
      cases bs with
      | nil => trivial
      | cons b bs =>
          have hb : b ∉ bs := (List.nodup_cons.mp (List.nodup_cons.mp hnd).2).1
          refine ⟨?_, ?_, ?_⟩
          · rw [unlinkPrev_succ hnx]; exact hx
          · rw [hnext b (by simp)]; exact hrest.2.1
          · refine hrest.2.2.congr (fun y hy => hnext y (by simp [hy])) (fun y hy => ?_)
            refine unlinkPrev_of_ne (fun e => ?_)
            rw [hnx] at e
            simp only [List.head?_cons, Option.some.injEq] at e
            exact hb (e ▸ hy)
  | cons a as ih =>
      obtain ⟨ha, hna, hrest⟩ := h
      have hanot : a ∉ as ++ x :: bs := (List.nodup_cons.mp hnd).1
      have hpv' : pv x = as.getLast?.or (some a) := hrest.pv_mid
      refine ⟨?_, ?_, ih hrest (List.nodup_cons.mp hnd).2 ?_ hpv'⟩
      · -- `a` sits before `x`, so it is not the cell behind `x`
        rw [unlinkPrev_of_ne (fun e => ?_)]
        · exact ha
        · rw [hnx] at e
          exact hanot (by simp [List.mem_of_mem_head? e])
      · cases as with
        | nil =>
            rw [unlinkNext_pred (by simpa using hpv'), hnx]
            rfl
        | cons b cs =>
            rw [unlinkNext_of_ne (fun e => ?_)]
            · exact hna
            · cases hl : (b :: cs).getLast? with
              | none => simp at hl
              | some l =>
                  rw [hpv', hl] at e
                  obtain rfl : l = a := by simpa using e
                  have hmem : l ∈ b :: cs := List.mem_of_getLast? hl
                  exact hanot (List.mem_append_left _ hmem)
      · rintro q hq
        obtain rfl : a = q := by simpa using hq
        exact hanot

/-- **Unlink.**  Removing a member by patching its neighbours removes it from the represented
list, wherever it stands. -/
theorem DList.unlink {nx pv : α → Option α} {hd : Option α} {xs : List α} {x : α}
    (h : DList nx pv hd xs) (hx : x ∈ xs) :
    DList (unlinkNext nx pv x) (unlinkPrev nx pv x)
      (unlinkHead nx pv hd x) (xs.erase x) := by
  obtain ⟨as, bs, rfl⟩ := List.append_of_mem hx
  have hnd := h.nodup
  have hxa : x ∉ as := fun hm => by
    have := List.nodup_append.mp hnd
    exact this.2.2 x hm x (by simp) rfl
  have herase : (as ++ x :: bs).erase x = as ++ bs := by
    rw [List.erase_append_right _ hxa, List.erase_cons_head]
  rw [herase]
  refine ⟨?_, h.links.unlink hnd (by simp), ?_⟩
  · have hpv := h.links.pv_mid
    have hnx := h.links.nx_mid
    have hhd := h.head
    cases as with
    | nil =>
        have hpv0 : pv x = none := by simpa using hpv
        simpa [unlinkHead, hpv0] using hnx
    | cons a as =>
        cases hl : (a :: as).getLast? with
        | none => simp at hl
        | some l => simpa [unlinkHead, hpv, hl] using hhd
  · have := hnd.erase x
    rwa [herase] at this

/-! ## §4. Two lists over the same link maps.

A cell is on at most one of them, so surgery on one list leaves the other alone, and a cell moves
from one to the other by an unlink followed by a push. -/

theorem consPrev_of_ne {pv : α → Option α} {hd : Option α} {x y : α} (hyx : y ≠ x)
    (hyh : hd ≠ some y) : consPrev pv hd x y = pv y := by
  cases hd with
  | none => simp [consPrev, Function.update_of_ne hyx]
  | some h =>
      have hne : y ≠ h := fun e => hyh (by rw [e])
      simp [consPrev, Function.update_of_ne hne, Function.update_of_ne hyx]

omit [DecidableEq α] in
theorem DList.prev_mem {nx pv : α → Option α} {hd : Option α} {xs : List α} {x q : α}
    (h : DList nx pv hd xs) (hx : x ∈ xs) (hq : pv x = some q) : q ∈ xs := by
  obtain ⟨as, bs, rfl⟩ := List.append_of_mem hx
  have hpv := h.links.pv_mid
  rw [hq] at hpv
  cases hl : as.getLast? with
  | none => simp [hl] at hpv
  | some l =>
      obtain rfl : q = l := by simpa [hl] using hpv
      exact List.mem_append_left _ (List.mem_of_getLast? hl)

omit [DecidableEq α] in
theorem DList.next_mem {nx pv : α → Option α} {hd : Option α} {xs : List α} {x q : α}
    (h : DList nx pv hd xs) (hx : x ∈ xs) (hq : nx x = some q) : q ∈ xs := by
  obtain ⟨as, bs, rfl⟩ := List.append_of_mem hx
  have hnx := h.links.nx_mid
  rw [hq] at hnx
  have : q ∈ bs := List.mem_of_mem_head? hnx.symm
  simp [this]

omit [DecidableEq α] in
theorem DList.head_mem {nx pv : α → Option α} {hd : Option α} {xs : List α} {q : α}
    (h : DList nx pv hd xs) (hq : hd = some q) : q ∈ xs :=
  List.mem_of_mem_head? (by rw [← h.head, hq]; rfl)

/-- Unlinking a cell of one list keeps every list that shares no cell with it. -/
theorem DList.unlink_other {nx pv : α → Option α} {h₁ h₂ : Option α} {xs ys : List α} {x : α}
    (hx : DList nx pv h₁ xs) (hy : DList nx pv h₂ ys) (hm : x ∈ xs) (hd : ∀ z ∈ xs, z ∉ ys) :
    DList (unlinkNext nx pv x) (unlinkPrev nx pv x) h₂ ys :=
  hy.congr
    (fun z hz => unlinkNext_of_ne fun e => hd z (hx.prev_mem hm e) hz)
    (fun z hz => unlinkPrev_of_ne fun e => hd z (hx.next_mem hm e) hz)

/-- Pushing a fresh cell onto one list keeps every list that shares no cell with it. -/
theorem DList.push_other {nx pv : α → Option α} {h₁ h₂ : Option α} {xs ys : List α} {x : α}
    (hx : DList nx pv h₁ xs) (hy : DList nx pv h₂ ys) (hm : x ∉ ys) (hd : ∀ z ∈ xs, z ∉ ys) :
    DList (Function.update nx x h₁) (consPrev pv h₁ x) h₂ ys := by
  have hne : ∀ z ∈ ys, z ≠ x := fun z hz e => hm (e ▸ hz)
  exact hy.congr (fun z hz => Function.update_of_ne (hne z hz) _ _)
    (fun z hz => consPrev_of_ne (hne z hz) fun e => hd z (hx.head_mem e) hz)

/-- **Transfer.**  Unlink `x` from the first list, then push it onto the second. -/
theorem DList.transfer {nx pv : α → Option α} {h₁ h₂ : Option α} {xs ys : List α} {x : α}
    (hx : DList nx pv h₁ xs) (hy : DList nx pv h₂ ys) (hm : x ∈ xs) (hd : ∀ z ∈ xs, z ∉ ys) :
    DList (Function.update (unlinkNext nx pv x) x h₂) (consPrev (unlinkPrev nx pv x) h₂ x)
        (unlinkHead nx pv h₁ x) (xs.erase x) ∧
      DList (Function.update (unlinkNext nx pv x) x h₂) (consPrev (unlinkPrev nx pv x) h₂ x)
        (some x) (x :: ys) := by
  have hx' := hx.unlink hm
  have hy' := hx.unlink_other hy hm hd
  have hxe : x ∉ xs.erase x := hx.nodup.not_mem_erase
  refine ⟨hy'.push_other hx' hxe fun z hz hze => ?_, hy'.push (hd x hm)⟩
  exact hd z (List.mem_of_mem_erase hze) hz

end CFiber.Base
