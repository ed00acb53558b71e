import Mathlib.Data.List.Chain
import Mathlib.Data.List.Nodup
import Mathlib.Logic.Function.Basic
import Mathlib.Tactic.Common

/-!
Circular doubly linked lists.

A ring is a head node and the nodes that are reached from it, in this order; following
the links leads back to the head. Several rings may share one memory. Reading a link that
is not set fails.
-/
namespace Ring
universe u

structure Links (ν : Type u) where
  next : ν → Option ν
  prev : ν → Option ν

namespace Links
variable {ν : Type u}

def empty : Links ν := ⟨fun _ => none, fun _ => none⟩

section Operations
variable [DecidableEq ν]

def setNext (m : Links ν) (x : ν) (y : Option ν) : Links ν :=
  { m with next := Function.update m.next x y }

def setPrev (m : Links ν) (x : ν) (y : Option ν) : Links ν :=
  { m with prev := Function.update m.prev x y }

/-- Take a node out of its ring. Its own links are cleared. -/
def unlink (m : Links ν) (x : ν) : Option (Links ν) := do
  let prev ← m.prev x
  let next ← m.next x
  return (((m.setPrev next prev).setNext prev next).setPrev x none).setNext x none

def pushFront (m : Links ν) (h x : ν) : Option (Links ν) := do
  let first ← m.next h
  return (((m.setNext x first).setPrev first x).setPrev x h).setNext h x

def pushBack (m : Links ν) (h x : ν) : Option (Links ν) := do
  let last ← m.prev h
  return (((m.setPrev x last).setNext last x).setNext x h).setPrev h x

/-- Move all nodes of the ring of `c` behind those of the ring of `h`. -/
def splice (m : Links ν) (h c : ν) : Option (Links ν) := do
  let last ← m.prev h
  let first ← m.next c
  let end' ← m.prev c
  return (((((m.setNext last first).setPrev first last).setNext end' h).setPrev h end').setNext
    c c).setPrev c c

/-- Link a row of nodes behind `x`, and its last node to `h`. -/
def row (m : Links ν) (h x : ν) : List ν → Links ν
  | [] => (m.setNext x h).setPrev h x
  | y :: ys => row ((m.setNext x y).setPrev y x) h y ys

end Operations

def Linked (m : Links ν) (a b : ν) : Prop := m.next a = some b ∧ m.prev b = some a

/-- The nodes of the ring with head `h`. -/
structure IsRing (m : Links ν) (h : ν) (xs : List ν) : Prop where
  nodup : (h :: xs).Nodup
  chain : (h :: (xs ++ [h])).IsChain m.Linked

/-- A chain depends on the links inwards only. -/
theorem isChain_frame {m m' : Links ν} {l : List ν} (h : l.IsChain m.Linked)
    (hnext : ∀ a ∈ l.dropLast, m'.next a = m.next a)
    (hprev : ∀ b ∈ l.tail, m'.prev b = m.prev b) : l.IsChain m'.Linked := by
  induction l with
  | nil => exact .nil
  | cons a l ih =>
      cases l with
      | nil => exact .singleton a
      | cons b l =>
          obtain ⟨hab, hl⟩ := List.isChain_cons_cons.mp h
          refine List.isChain_cons_cons.mpr ⟨⟨?_, ?_⟩, ?_⟩
          · exact (hnext a (.head _)).trans hab.1
          · exact (hprev b (.head _)).trans hab.2
          · exact ih hl (fun c hc => hnext c (.tail a hc))
              (fun c hc => hprev c (.tail b hc))

namespace IsRing
variable {m m' : Links ν} {h x : ν} {xs ys : List ν}

theorem frame (hm : m.IsRing h xs) (hnext : ∀ a ∈ h :: xs, m'.next a = m.next a)
    (hprev : ∀ a ∈ h :: xs, m'.prev a = m.prev a) : m'.IsRing h xs := by
  refine ⟨hm.nodup, isChain_frame hm.chain (fun a ha => hnext a ?_) (fun b hb => hprev b ?_)⟩
  · rw [← List.cons_append, List.dropLast_concat] at ha
    exact ha
  · obtain hxs | hh := List.mem_append.mp hb
    · exact .tail h hxs
    · exact List.mem_singleton.mp hh ▸ .head xs

/-- Links of other nodes do not matter. -/
theorem frame_apart (hm : m.IsRing h xs) {ns : List ν}
    (hframe : ∀ y ∉ ns, m'.next y = m.next y ∧ m'.prev y = m.prev y)
    (hapart : ∀ a ∈ h :: xs, a ∉ ns) : m'.IsRing h xs :=
  hm.frame (fun a ha => (hframe a (hapart a ha)).1) (fun a ha => (hframe a (hapart a ha)).2)

theorem head_notMem (hm : m.IsRing h xs) : h ∉ xs := (List.nodup_cons.mp hm.nodup).1

theorem nodup_tail (hm : m.IsRing h xs) : xs.Nodup := (List.nodup_cons.mp hm.nodup).2

/-- The first node, or the head of an empty ring. -/
theorem next_head (hm : m.IsRing h xs) : m.next h = some (xs.head?.getD h) := by
  cases xs with
  | nil => exact (List.isChain_cons_cons.mp hm.chain).1.1
  | cons y ys => exact (List.isChain_cons_cons.mp hm.chain).1.1

theorem prev_head (hm : m.IsRing h xs) : m.prev h = some (xs.getLast?.getD h) := by
  have hchain := hm.chain
  cases xs using List.reverseRecOn with
  | nil => exact (List.isChain_cons_cons.mp hchain).1.2
  | append_singleton ys y _ =>
      rw [List.append_assoc, ← List.cons_append] at hchain
      obtain ⟨-, hyh, -⟩ := List.isChain_append_cons_cons.mp hchain
      rw [List.getLast?_concat]
      exact hyh.2

/-- Walking on from a node of the ring. -/
theorem next_mem {l r : List ν} (hm : m.IsRing h (l ++ x :: r)) :
    m.next x = some (r.head?.getD h) := by
  have hchain := hm.chain
  cases r with
  | nil =>
      rw [List.append_assoc, ← List.cons_append] at hchain
      exact (List.isChain_append_cons_cons.mp hchain).2.1.1
  | cons y ys =>
      rw [List.append_assoc, ← List.cons_append] at hchain
      exact (List.isChain_append_cons_cons.mp hchain).2.1.1

theorem prev_mem {l r : List ν} (hm : m.IsRing h (l ++ x :: r)) :
    m.prev x = some (l.getLast?.getD h) := by
  have hchain := hm.chain
  cases l using List.reverseRecOn with
  | nil => exact (List.isChain_cons_cons.mp hchain).1.2
  | append_singleton l y _ =>
      rw [List.append_assoc, List.append_assoc, ← List.cons_append] at hchain
      rw [List.getLast?_concat]
      exact (List.isChain_append_cons_cons.mp hchain).2.1.2

end IsRing

/-! ### The two ends of a row -/

theorem exists_last (h : ν) (l : List ν) : ∃ A, h :: l = A ++ [l.getLast?.getD h] := by
  cases l using List.reverseRecOn with
  | nil => exact ⟨[], rfl⟩
  | append_singleton l y _ =>
      refine ⟨h :: l, ?_⟩
      rw [List.getLast?_concat]
      rfl

theorem exists_first (h : ν) (r : List ν) : ∃ B, r ++ [h] = r.head?.getD h :: B := by
  cases r with
  | nil => exact ⟨[], rfl⟩
  | cons y ys => exact ⟨ys ++ [h], rfl⟩

theorem getLastD_mem (h : ν) (l : List ν) : l.getLast?.getD h ∈ h :: l := by
  obtain ⟨A, hA⟩ := exists_last h l
  rw [hA]
  exact List.mem_append_right A (.head [])

theorem headD_mem (h : ν) (r : List ν) : r.head?.getD h ∈ h :: r := by
  cases r with
  | nil => exact .head []
  | cons y ys => exact .tail h (.head ys)

section Rows
variable {m : Links ν} {h x : ν}

/-- The row up to the last node keeps its links if the last node is linked anew. -/
theorem isChain_upto {m' : Links ν} {l : List ν} (hnodup : (h :: l).Nodup)
    (hchain : (h :: l).IsChain m.Linked)
    (hnext : ∀ a ∈ h :: l, a ≠ l.getLast?.getD h → m'.next a = m.next a)
    (hprev : ∀ b ∈ l, m'.prev b = m.prev b) : (h :: l).IsChain m'.Linked := by
  refine isChain_frame hchain (fun a ha => ?_) hprev
  obtain ⟨A, hA⟩ := exists_last h l
  rw [hA, List.dropLast_concat] at ha
  refine hnext a (hA ▸ List.mem_append_left _ ha) (fun heq => ?_)
  rw [hA] at hnodup
  exact (List.nodup_append.mp hnodup).2.2 a ha _ (.head []) heq

/-- The row from the first node on keeps its links if the first node is linked anew. -/
theorem isChain_from {m' : Links ν} {r : List ν} (hnodup : (h :: r).Nodup)
    (hchain : (r ++ [h]).IsChain m.Linked)
    (hnext : ∀ a ∈ r, m'.next a = m.next a)
    (hprev : ∀ b ∈ h :: r, b ≠ r.head?.getD h → m'.prev b = m.prev b) :
    (r ++ [h]).IsChain m'.Linked := by
  refine isChain_frame hchain (fun a ha => hnext a ?_) (fun b hb => ?_)
  · rwa [List.dropLast_concat] at ha
  · cases r with
    | nil => cases hb
    | cons y ys =>
        obtain ⟨hh, hys⟩ := List.nodup_cons.mp hnodup
        obtain hmem | hmem := List.mem_append.mp hb
        · refine hprev b (.tail h (.tail y hmem)) (fun heq => ?_)
          rw [show b = y from heq] at hmem
          exact (List.nodup_cons.mp hys).1 hmem
        · rw [List.mem_singleton.mp hmem]
          exact hprev h (.head _) (fun heq => hh (heq ▸ .head ys))

theorem IsRing.parts {l r : List ν} (hm : m.IsRing h (l ++ r)) :
    (h :: l).IsChain m.Linked ∧ (r ++ [h]).IsChain m.Linked := by
  have hchain := hm.chain
  rw [List.append_assoc, ← List.cons_append] at hchain
  exact ⟨hchain.left_of_append, hchain.right_of_append⟩

/-- Two rows with a link between them. -/
theorem isChain_join {l r : List ν} (hl : (h :: l).IsChain m.Linked)
    (hr : (r ++ [h]).IsChain m.Linked)
    (hlink : m.Linked (l.getLast?.getD h) (r.head?.getD h)) :
    (h :: ((l ++ r) ++ [h])).IsChain m.Linked := by
  obtain ⟨A, hA⟩ := exists_last h l
  obtain ⟨B, hB⟩ := exists_first h r
  rw [hA] at hl
  rw [hB] at hr
  rw [List.append_assoc, ← List.cons_append, hA, hB, List.append_assoc]
  exact List.isChain_append_cons_cons.mpr ⟨hl, hlink, hr⟩

/-- What a ring of three parts keeps apart. -/
theorem IsRing.apart {l r : List ν} (hm : m.IsRing h (l ++ x :: r)) :
    x ∉ h :: l ∧ x ∉ h :: r ∧ (∀ a ∈ h :: l, a ∉ r) ∧ (∀ a ∈ h :: r, a ∉ l) ∧
      (h :: l).Nodup ∧ (h :: r).Nodup := by
  have hnodup := hm.nodup
  grind

end Rows

section Edits
variable [DecidableEq ν] {m : Links ν} {h x : ν}

theorem isRing_unlink {l r : List ν} (hm : m.IsRing h (l ++ x :: r)) :
    ∃ m', m.unlink x = some m' ∧ m'.IsRing h (l ++ r) ∧
      ∀ y ∉ h :: (l ++ x :: r), m'.next y = m.next y ∧ m'.prev y = m.prev y := by
  have hprevx := hm.prev_mem
  have hnextx := hm.next_mem
  obtain ⟨hl, hxr⟩ := hm.parts
  obtain ⟨hxl, hxr', hlr, hrl, hlnodup, hrnodup⟩ := hm.apart
  have hp := getLastD_mem h l
  have hn := headD_mem h r
  generalize hpdef : l.getLast?.getD h = p at hprevx hp
  generalize hndef : r.head?.getD h = n at hnextx hn
  obtain ⟨m', hm', hnext', hprev'⟩ : ∃ m', m.unlink x = some m' ∧
      (∀ y, m'.next y = if y = x then none else if y = p then some n else m.next y) ∧
      (∀ y, m'.prev y = if y = x then none else if y = n then some p else m.prev y) := by
    refine ⟨_, by simp only [unlink, hprevx, hnextx]; rfl, fun y => ?_, fun y => ?_⟩
    · simp only [setNext, setPrev, Function.update_apply]
    · simp only [setNext, setPrev, Function.update_apply]
  refine ⟨m', hm', ⟨?_, ?_⟩, fun y hy => ?_⟩
  · exact (List.Sublist.cons_cons h
      (List.Sublist.append_left (List.sublist_cons_self x r) l)).nodup hm.nodup
  · refine isChain_join (isChain_upto hlnodup hl ?_ ?_) (isChain_from hrnodup hxr.tail ?_ ?_) ?_
    · intro a ha hap
      rw [hnext', if_neg (ne_of_mem_of_not_mem ha hxl), if_neg (hpdef ▸ hap)]
    · intro b hb
      rw [hprev', if_neg (ne_of_mem_of_not_mem (List.mem_cons_of_mem h hb) hxl),
        if_neg (ne_of_mem_of_not_mem hb (hrl n hn))]
    · intro a ha
      rw [hnext', if_neg (ne_of_mem_of_not_mem (List.mem_cons_of_mem h ha) hxr'),
        if_neg (ne_of_mem_of_not_mem ha (hlr p hp))]
    · intro b hb hbn
      rw [hprev', if_neg (ne_of_mem_of_not_mem hb hxr'), if_neg (hndef ▸ hbn)]
    · rw [hpdef, hndef]
      refine ⟨?_, ?_⟩
      · rw [hnext', if_neg (ne_of_mem_of_not_mem hp hxl), if_pos rfl]
      · rw [hprev', if_neg (ne_of_mem_of_not_mem hn hxr'), if_pos rfl]
  · have hyx : y ≠ x := by grind
    have hyp : y ≠ p := by grind
    have hyn : y ≠ n := by grind
    rw [hnext', hprev', if_neg hyx, if_neg hyx, if_neg hyp, if_neg hyn]
    exact ⟨rfl, rfl⟩

theorem isRing_pushFront {xs : List ν} (hm : m.IsRing h xs) (hx : x ∉ h :: xs) :
    ∃ m', m.pushFront h x = some m' ∧ m'.IsRing h (x :: xs) ∧
      ∀ y ∉ h :: x :: xs, m'.next y = m.next y ∧ m'.prev y = m.prev y := by
  have hnexth := hm.next_head
  have hn := headD_mem h xs
  have hhx : h ∉ xs := hm.head_notMem
  generalize hndef : xs.head?.getD h = n at hnexth hn
  obtain ⟨m', hm', hnext', hprev'⟩ : ∃ m', m.pushFront h x = some m' ∧
      (∀ y, m'.next y = if y = h then some x else if y = x then some n else m.next y) ∧
      (∀ y, m'.prev y = if y = x then some h else if y = n then some x else m.prev y) := by
    refine ⟨_, by simp only [pushFront, hnexth]; rfl, fun y => ?_, fun y => ?_⟩
    · simp only [setNext, setPrev, Function.update_apply]
    · simp only [setNext, setPrev, Function.update_apply]
  have hxh : x ≠ h := fun heq => hx (heq ▸ .head xs)
  have hxxs : x ∉ xs := fun hmem => hx (.tail h hmem)
  refine ⟨m', hm', ⟨?_, ?_⟩, fun y hy => ?_⟩
  · refine List.nodup_cons.mpr ⟨?_, List.nodup_cons.mpr ⟨hxxs, hm.nodup_tail⟩⟩
    rw [List.mem_cons, not_or]
    exact ⟨hxh.symm, hhx⟩
  · have hrest : (xs ++ [h]).IsChain m'.Linked := by
      refine isChain_from hm.nodup hm.chain.tail ?_ ?_
      · intro a ha
        rw [hnext', if_neg (ne_of_mem_of_not_mem ha hhx), if_neg (ne_of_mem_of_not_mem ha hxxs)]
      · intro b hb hbn
        rw [hprev', if_neg (ne_of_mem_of_not_mem hb hx), if_neg (hndef ▸ hbn)]
    obtain ⟨B, hB⟩ := exists_first h xs
    rw [hndef] at hB
    rw [hB] at hrest
    rw [List.cons_append, hB]
    refine List.isChain_cons_cons.mpr ⟨⟨?_, ?_⟩, List.isChain_cons_cons.mpr ⟨⟨?_, ?_⟩, hrest⟩⟩
    · rw [hnext', if_pos rfl]
    · rw [hprev', if_pos rfl]
    · rw [hnext', if_neg hxh, if_pos rfl]
    · rw [hprev', if_neg (ne_of_mem_of_not_mem hn hx), if_pos rfl]
  · have hyh : y ≠ h := by grind
    have hyx : y ≠ x := by grind
    have hyn : y ≠ n := by grind
    rw [hnext', hprev', if_neg hyh, if_neg hyx, if_neg hyx, if_neg hyn]
    exact ⟨rfl, rfl⟩

theorem isRing_pushBack {xs : List ν} (hm : m.IsRing h xs) (hx : x ∉ h :: xs) :
    ∃ m', m.pushBack h x = some m' ∧ m'.IsRing h (xs ++ [x]) ∧
      ∀ y ∉ h :: x :: xs, m'.next y = m.next y ∧ m'.prev y = m.prev y := by
  have hprevh := hm.prev_head
  have hp := getLastD_mem h xs
  have hhx : h ∉ xs := hm.head_notMem
  have hxh : x ≠ h := fun heq => hx (heq ▸ .head xs)
  have hxxs : x ∉ xs := fun hmem => hx (.tail h hmem)
  generalize hpdef : xs.getLast?.getD h = p at hprevh hp
  obtain ⟨m', hm', hnext', hprev'⟩ : ∃ m', m.pushBack h x = some m' ∧
      (∀ y, m'.next y = if y = x then some h else if y = p then some x else m.next y) ∧
      (∀ y, m'.prev y = if y = h then some x else if y = x then some p else m.prev y) := by
    refine ⟨_, by simp only [pushBack, hprevh]; rfl, fun y => ?_, fun y => ?_⟩
    · simp only [setNext, setPrev, Function.update_apply]
    · simp only [setNext, setPrev, Function.update_apply]
  refine ⟨m', hm', ⟨?_, ?_⟩, fun y hy => ?_⟩
  · refine List.nodup_cons.mpr ⟨?_, List.nodup_append.mpr
      ⟨hm.nodup_tail, List.nodup_singleton x, fun a ha b hb heq => ?_⟩⟩
    · rw [List.mem_append, List.mem_singleton, not_or]
      exact ⟨hhx, hxh.symm⟩
    · rw [List.mem_singleton.mp hb] at heq
      exact hxxs (heq ▸ ha)
  · have hrest : (h :: xs).IsChain m'.Linked := by
      have hmrow : m.IsRing h (xs ++ []) := by rwa [List.append_nil]
      refine isChain_upto hm.nodup hmrow.parts.1 ?_ ?_
      · intro a ha hap
        rw [hnext', if_neg (ne_of_mem_of_not_mem ha hx), if_neg (hpdef ▸ hap)]
      · intro b hb
        rw [hprev', if_neg (ne_of_mem_of_not_mem hb hhx), if_neg (ne_of_mem_of_not_mem hb hxxs)]
    refine isChain_join (r := [x]) hrest ?_ ?_
    · refine List.isChain_cons_cons.mpr ⟨⟨?_, ?_⟩, .singleton h⟩
      · rw [hnext', if_pos rfl]
      · rw [hprev', if_pos rfl]
    · rw [hpdef]
      refine ⟨?_, ?_⟩
      · rw [hnext', if_neg (ne_of_mem_of_not_mem hp hx), if_pos rfl]
        rfl
      · change m'.prev x = some p
        rw [hprev', if_neg hxh, if_pos rfl]
  · have hyh : y ≠ h := by grind
    have hyx : y ≠ x := by grind
    have hyp : y ≠ p := by grind
    rw [hnext', hprev', if_neg hyx, if_neg hyp, if_neg hyh, if_neg hyx]
    exact ⟨rfl, rfl⟩

section TwoRings
variable {g : ν} {l r xs ys : List ν}

theorem isRing_unlink_apart (hm : m.IsRing h (l ++ x :: r)) (hg : m.IsRing g ys)
    (hapart : ∀ a ∈ g :: ys, a ∉ h :: (l ++ x :: r)) :
    ∃ m', m.unlink x = some m' ∧ m'.IsRing h (l ++ r) ∧ m'.IsRing g ys ∧
      x ∉ h :: (l ++ r) ∧ ∀ a ∈ g :: ys, a ∉ h :: x :: (l ++ r) := by
  obtain ⟨m', hunlink, hm', hframe⟩ := isRing_unlink hm
  have hnodup := hm.nodup
  refine ⟨m', hunlink, hm', hg.frame_apart hframe hapart, by grind, fun a ha hmem => ?_⟩
  exact hapart a ha (by grind)

/-- A node comes to the front of its ring; another ring stays. -/
theorem isRing_moveFront (hm : m.IsRing h (l ++ x :: r)) (hg : m.IsRing g ys)
    (hapart : ∀ a ∈ g :: ys, a ∉ h :: (l ++ x :: r)) :
    ∃ m', (m.unlink x).bind (fun m => m.pushFront h x) = some m' ∧
      m'.IsRing h (x :: (l ++ r)) ∧ m'.IsRing g ys := by
  obtain ⟨m₁, hunlink, hm₁, hg₁, hx, hout⟩ := isRing_unlink_apart hm hg hapart
  obtain ⟨m₂, hpush, hm₂, hframe⟩ := isRing_pushFront hm₁ hx
  exact ⟨m₂, by rw [hunlink]; exact hpush, hm₂, hg₁.frame_apart hframe hout⟩

/-- A node leaves its ring for the front of another. -/
theorem isRing_transferFront (hm : m.IsRing h (l ++ x :: r)) (hg : m.IsRing g ys)
    (hapart : ∀ a ∈ g :: ys, a ∉ h :: (l ++ x :: r)) :
    ∃ m', (m.unlink x).bind (fun m => m.pushFront g x) = some m' ∧
      m'.IsRing h (l ++ r) ∧ m'.IsRing g (x :: ys) := by
  obtain ⟨m₁, hunlink, hm₁, hg₁, hx, hout⟩ := isRing_unlink_apart hm hg hapart
  obtain ⟨m₂, hpush, hg₂, hframe⟩ := isRing_pushFront hg₁
    (fun hmem => hapart x hmem (by grind))
  refine ⟨m₂, by rw [hunlink]; exact hpush, hm₁.frame_apart hframe (fun a ha hmem => ?_), hg₂⟩
  obtain heq | hmem := List.mem_cons.mp hmem
  · exact hout g (.head ys) (by grind)
  · obtain heq | hmem := List.mem_cons.mp hmem
    · exact hx (heq ▸ ha)
    · exact hout a (.tail g hmem) (by grind)

/-- A node leaves its ring for the end of another. -/
theorem isRing_transferBack (hm : m.IsRing h (l ++ x :: r)) (hg : m.IsRing g ys)
    (hapart : ∀ a ∈ g :: ys, a ∉ h :: (l ++ x :: r)) :
    ∃ m', (m.unlink x).bind (fun m => m.pushBack g x) = some m' ∧
      m'.IsRing h (l ++ r) ∧ m'.IsRing g (ys ++ [x]) := by
  obtain ⟨m₁, hunlink, hm₁, hg₁, hx, hout⟩ := isRing_unlink_apart hm hg hapart
  obtain ⟨m₂, hpush, hg₂, hframe⟩ := isRing_pushBack hg₁
    (fun hmem => hapart x hmem (by grind))
  refine ⟨m₂, by rw [hunlink]; exact hpush, hm₁.frame_apart hframe (fun a ha hmem => ?_), hg₂⟩
  obtain heq | hmem := List.mem_cons.mp hmem
  · exact hout g (.head ys) (by grind)
  · obtain heq | hmem := List.mem_cons.mp hmem
    · exact hx (heq ▸ ha)
    · exact hout a (.tail g hmem) (by grind)

end TwoRings

/-- The nodes of another ring, which is left empty, are moved behind those of this one. -/
theorem isRing_splice {c : ν} {xs ys : List ν} (hm : m.IsRing h xs) (hc : m.IsRing c ys)
    (hys : ys ≠ []) (hdisj : ∀ a ∈ h :: xs, a ∉ c :: ys) :
    ∃ m', m.splice h c = some m' ∧ m'.IsRing h (xs ++ ys) ∧ m'.IsRing c [] := by
  have hlast := hm.prev_head
  have hfirst := hc.next_head
  have hend := hc.prev_head
  have hp := getLastD_mem h xs
  obtain ⟨f, rest, rfl⟩ := List.exists_cons_of_ne_nil hys
  obtain ⟨A, e, hA⟩ := List.eq_nil_or_concat' (f :: rest) |>.resolve_left hys
  have he : (f :: rest).getLast? = some e := by rw [hA, List.getLast?_concat]
  have hemem : e ∈ f :: rest := List.mem_of_getLast? he
  rw [he] at hend
  change m.prev c = some e at hend
  change m.next c = some f at hfirst
  generalize hpdef : xs.getLast?.getD h = p at hlast hp
  have hch : c ≠ h := fun heq => hdisj h (.head xs) (heq ▸ .head _)
  have hcxs : c ∉ h :: xs := fun hmem => hdisj c hmem (.head _)
  have hcys := hc.head_notMem
  obtain ⟨m', hm', hnext', hprev'⟩ : ∃ m', m.splice h c = some m' ∧
      (∀ y, m'.next y = if y = c then some c else if y = e then some h
        else if y = p then some f else m.next y) ∧
      (∀ y, m'.prev y = if y = c then some c else if y = h then some e
        else if y = f then some p else m.prev y) := by
    refine ⟨_, by simp only [splice, hlast, hfirst, hend]; rfl, fun y => ?_, fun y => ?_⟩
    · simp only [setNext, setPrev, Function.update_apply]
    · simp only [setNext, setPrev, Function.update_apply]
  have hnotys : ∀ a ∈ h :: xs, a ∉ f :: rest := fun a ha hmem =>
    hdisj a ha (List.mem_cons_of_mem c hmem)
  refine ⟨m', hm', ⟨?_, ?_⟩, ⟨List.nodup_singleton c, ?_⟩⟩
  · refine List.nodup_append.mpr ⟨hm.nodup, hc.nodup_tail, fun a ha b hb heq => ?_⟩
    exact hnotys a ha (heq ▸ hb)
  · have hrow : (h :: xs).IsChain m'.Linked := by
      have hmrow : m.IsRing h (xs ++ []) := by rwa [List.append_nil]
      refine isChain_upto hm.nodup hmrow.parts.1 ?_ ?_
      · intro a ha hap
        rw [hnext', if_neg (ne_of_mem_of_not_mem ha hcxs),
          if_neg (ne_of_mem_of_not_mem hemem (hnotys a ha)).symm, if_neg (hpdef ▸ hap)]
      · intro b hb
        rw [hprev', if_neg (ne_of_mem_of_not_mem (List.mem_cons_of_mem h hb) hcxs),
          if_neg (ne_of_mem_of_not_mem hb hm.head_notMem),
          if_neg (ne_of_mem_of_not_mem (List.mem_cons_self ..)
            (hnotys b (List.mem_cons_of_mem h hb))).symm]
    have hmoved : (f :: rest).IsChain m'.Linked := by
      have hcrow : m.IsRing c ((f :: rest) ++ []) := by rwa [List.append_nil]
      refine isChain_frame hcrow.parts.1.tail (fun a ha => ?_) (fun b hb => ?_)
      · have hmem := List.dropLast_subset _ ha
        have hae : a ≠ e := by
          intro heq
          have hnodup := hc.nodup_tail
          rw [hA] at ha hnodup
          rw [List.dropLast_concat] at ha
          exact (List.nodup_append.mp hnodup).2.2 a ha e (.head []) heq
        rw [hnext', if_neg (ne_of_mem_of_not_mem hmem hcys), if_neg hae,
          if_neg (ne_of_mem_of_not_mem hmem (hnotys p hp))]
      · have hmem := List.mem_of_mem_tail hb
        have hbf : b ≠ f := fun heq => (List.nodup_cons.mp hc.nodup_tail).1 (heq ▸ hb)
        rw [hprev', if_neg (ne_of_mem_of_not_mem hmem hcys),
          if_neg (ne_of_mem_of_not_mem hmem (hnotys h (.head xs))), if_neg hbf]
    refine isChain_join hrow ?_ ?_
    · rw [hA, List.append_assoc]
      rw [hA] at hmoved
      refine List.isChain_append_cons_cons.mpr ⟨hmoved, ⟨?_, ?_⟩, .singleton h⟩
      · rw [hnext', if_neg (ne_of_mem_of_not_mem hemem hcys), if_pos rfl]
      · rw [hprev', if_neg hch.symm, if_pos rfl]
    · rw [hpdef]
      refine ⟨?_, ?_⟩
      · rw [hnext', if_neg (ne_of_mem_of_not_mem hp hcxs),
          if_neg (ne_of_mem_of_not_mem hemem (hnotys p hp)).symm, if_pos rfl]
        rfl
      · change m'.prev f = some p
        rw [hprev', if_neg (ne_of_mem_of_not_mem (List.mem_cons_self ..) hcys),
          if_neg (ne_of_mem_of_not_mem (List.mem_cons_self ..) (hnotys h (.head xs))), if_pos rfl]
  · refine List.isChain_cons_cons.mpr ⟨⟨?_, ?_⟩, .singleton c⟩
    · rw [hnext', if_pos rfl]
    · rw [hprev', if_pos rfl]

theorem row_frame (ys : List ν) (m : Links ν) (h x : ν) :
    (∀ a ∉ x :: ys, (m.row h x ys).next a = m.next a) ∧
      (∀ a ∉ h :: ys, (m.row h x ys).prev a = m.prev a) := by
  induction ys generalizing m x with
  | nil =>
      refine ⟨fun a ha => ?_, fun a ha => ?_⟩
      · exact Function.update_of_ne (List.ne_of_not_mem_cons ha) _ _
      · exact Function.update_of_ne (List.ne_of_not_mem_cons ha) _ _
  | cons y ys ih =>
      obtain ⟨hnext, hprev⟩ := ih ((m.setNext x y).setPrev y x) y
      refine ⟨fun a ha => ?_, fun a ha => ?_⟩
      · rw [row, hnext a (fun hmem => ha (.tail x hmem))]
        exact Function.update_of_ne (List.ne_of_not_mem_cons ha) _ _
      · rw [row, hprev a (by grind)]
        have hay : a ≠ y := by
          intro heq
          rw [heq] at ha
          exact ha (.tail h (.head ys))
        exact Function.update_of_ne hay _ _

theorem isChain_row (ys : List ν) (m : Links ν) (h x : ν) (hnodup : (x :: ys).Nodup)
    (hh : h ∉ ys) : (x :: (ys ++ [h])).IsChain (m.row h x ys).Linked := by
  induction ys generalizing m x with
  | nil =>
      refine List.isChain_cons_cons.mpr ⟨⟨?_, ?_⟩, .singleton h⟩
      · exact Function.update_self ..
      · exact Function.update_self ..
  | cons y ys ih =>
      obtain ⟨hx, hys⟩ := List.nodup_cons.mp hnodup
      have hrow := ih ((m.setNext x y).setPrev y x) y hys (fun hmem => hh (.tail y hmem))
      obtain ⟨hnext, hprev⟩ := row_frame ys ((m.setNext x y).setPrev y x) h y
      refine List.isChain_cons_cons.mpr ⟨⟨?_, ?_⟩, hrow⟩
      · rw [row, hnext x hx]
        exact Function.update_self ..
      · have hyh : y ∉ h :: ys := by
          rw [List.mem_cons, not_or]
          exact ⟨fun heq => hh (heq ▸ .head ys), (List.nodup_cons.mp hys).1⟩
        rw [row, hprev y hyh]
        exact Function.update_self ..

theorem isRing_row {ys : List ν} (hnodup : (h :: ys).Nodup) : (m.row h h ys).IsRing h ys :=
  ⟨hnodup, isChain_row ys m h h hnodup (List.nodup_cons.mp hnodup).1⟩

end Edits
end Links
end Ring
