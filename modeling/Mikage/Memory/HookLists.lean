import Mikage.Lib.Blocks
import Mikage.Memory.Hooks

/-!
# The hook list of a page

A hook list as blocks of bytes labelled with handlers (`Hook.toBlock`).

- `removeHooks_blocks`: clearing a range cuts it out of the blocks.
- `insertHook_blocks`: setting a hook inside a page adds its block, joined with the neighbours it
  touches, provided that they have its handler.
- `insertHook_refuses`: a hook that overlaps one of the list is refused.
-/

namespace Mikage

open Block

variable {H : Type} {h : Hook H} {l l' : List (Hook H)} {start : PAddr} {numBytes : BitVec 32}

def Hook.toBlock (h : Hook H) : Block H := ⟨h.start.toNat, h.numBytes.toNat, h.handler⟩

def hookBlocks (l : List (Hook H)) : List (Block H) := l.map Hook.toBlock

theorem toBlock_mem_hookBlocks (hh : h ∈ l) : h.toBlock ∈ hookBlocks l := List.mem_map_of_mem hh

theorem hookBlocks_append : hookBlocks (l ++ l') = hookBlocks l ++ hookBlocks l' := List.map_append

theorem hookBlocks_cons : hookBlocks (h :: l) = h.toBlock :: hookBlocks l := rfl

/-- No hook of the list reaches the end of the address space. -/
def Below (l : List (Hook H)) : Prop := ∀ h ∈ l, h.toBlock.stop < 2 ^ 32

theorem Hook.stop_toNat (hh : h.toBlock.stop < 2 ^ 32) : h.stop.toNat = h.toBlock.stop := by
  unfold Block.stop Hook.toBlock at *
  rw [Hook.stop, BitVec.toNat_add, Nat.mod_eq_of_lt hh]

/-! ## Clearing -/

theorem removeHooks_cons (hh : h.toBlock.stop < 2 ^ 32)
    (hrange : start.toNat + numBytes.toNat < 2 ^ 32) :
    hookBlocks (removeHooks start numBytes (h :: l)) =
      cut start.toNat (start.toNat + numBytes.toNat) h.toBlock ++
        hookBlocks (removeHooks start numBytes l) := by
  have hstop := Hook.stop_toNat hh
  have hend : (start + numBytes).toNat = start.toNat + numBytes.toNat := by
    rw [BitVec.toNat_add, Nat.mod_eq_of_lt hrange]
  have hle : h.start.toNat ≤ h.toBlock.stop := Nat.le_add_right _ _
  have hsize : h.toBlock.stop = h.start.toNat + h.numBytes.toNat := rfl
  have hstart : h.toBlock.start = h.start.toNat := rfl
  rw [removeHooks, Hook.overlaps, cut]
  simp only [BitVec.lt_def, BitVec.le_def, hstop, hend, Bool.not_eq_true', Bool.or_eq_false_iff,
    decide_eq_false_iff_not, hstart]
  by_cases hout : h.toBlock.stop ≤ start.toNat ∨ start.toNat + numBytes.toNat ≤ h.start.toNat
  · rw [if_neg (by omega), if_pos hout, hookBlocks_cons, List.singleton_append]
  rw [if_pos (by omega), if_neg hout]
  by_cases hleft : h.start.toNat < start.toNat <;>
    by_cases hright : start.toNat + numBytes.toNat < h.toBlock.stop
  all_goals
    simp only [hleft, hright, and_self, and_true, and_false, if_true, if_false, hookBlocks_cons,
      List.append_nil, List.nil_append, List.cons_append]
  · have hl : (start - h.start).toNat = start.toNat - h.start.toNat := by bv_omega
    have hr : (h.stop - (start + numBytes)).toNat =
        h.toBlock.stop - (start.toNat + numBytes.toNat) := by
      rw [BitVec.toNat_sub_of_le (by rw [BitVec.le_def]; omega), hstop, hend]
    simp only [Hook.toBlock, hl, hr, hend] at *
  · have hl : (start - h.start).toNat = start.toNat - h.start.toNat := by bv_omega
    simp only [Hook.toBlock, hl]
  · have hs : (h.start + (start + numBytes - h.start)).toNat = start.toNat + numBytes.toNat := by
      rw [← hend]
      congr 1
      bv_omega
    have hn : (h.numBytes - (start + numBytes - h.start)).toNat =
        h.toBlock.stop - (start.toNat + numBytes.toNat) := by
      bv_omega
    simp only [Hook.toBlock, hs, hn]

/-- Clearing a range cuts it out. -/
theorem removeHooks_blocks (hl : Below l) (hrange : start.toNat + numBytes.toNat < 2 ^ 32) :
    hookBlocks (removeHooks start numBytes l) =
      (hookBlocks l).flatMap (cut start.toNat (start.toNat + numBytes.toNat)) := by
  induction l with
  | nil => rfl
  | cons h l ih =>
    rw [removeHooks_cons (hl h (.head _)) hrange, ih fun h' hh' => hl h' (.tail _ hh'),
      hookBlocks_cons, List.flatMap_cons]

/-! ## Setting -/

variable {bus : Bus} {page : BitVec 32} {handler : H}

theorem stop_le_last {b : Hook H} (hsep : Separated (hookBlocks l)) (hlast : l.getLast? = some b)
    (hh : h ∈ l) : h.toBlock.stop ≤ b.toBlock.stop := by
  obtain ⟨f, rfl⟩ := List.getLast?_eq_some_iff.1 hlast
  rw [hookBlocks_append] at hsep
  rcases List.mem_append.1 hh with hh | hh
  · have hle := (separated_append.1 hsep).2.2 _ (toBlock_mem_hookBlocks hh) b.toBlock (.head _)
    exact hle.trans (Nat.le_add_right _ _)
  · rw [List.mem_singleton.1 hh]

theorem head_le_start {a : Hook H} (hsep : Separated (hookBlocks l)) (hhead : l.head? = some a)
    (hh : h ∈ l) : a.start.toNat ≤ h.start.toNat := by
  obtain ⟨t, rfl⟩ := List.head?_eq_some_iff.1 hhead
  rcases List.mem_cons.1 hh with rfl | hh
  · exact Nat.le_refl _
  · exact (Nat.le_add_right _ _).trans (Separated.head_le hsep (toBlock_mem_hookBlocks hh))

/-- A list cut at the place of a new hook that overlaps none of it. -/
structure Place (start : PAddr) (numBytes : BitVec 32) (front back : List (Hook H)) : Prop where
  separated : Separated (hookBlocks (front ++ back))
  below : Below (front ++ back)
  front_le : ∀ h ∈ front, h.toBlock.stop ≤ start.toNat
  le_back : ∀ h ∈ back, start.toNat + numBytes.toNat ≤ h.start.toNat
  range : start.toNat + numBytes.toNat < 2 ^ 32

/-- The list without and with the block of the new hook. -/
def Added (start : PAddr) (numBytes : BitVec 32) (handler : H) (l l' : List (Hook H)) : Prop :=
  Separated (hookBlocks l') ∧ ∀ x a, Labels (hookBlocks l') x a ↔
    Labels (hookBlocks l) x a ∨
      ((start.toNat ≤ x ∧ x < start.toNat + numBytes.toNat) ∧ handler = a)

namespace Place

variable {front back f t : List (Hook H)} {a b : Hook H}

/-- The new hook on its own. -/
theorem add (h : Place start numBytes front back) (handler : H) (hpos : 0 < numBytes.toNat) :
    Added start numBytes handler (front ++ back) (front ++ ⟨start, numBytes, handler⟩ :: back) := by
  have hsep := h.separated
  rw [hookBlocks_append] at hsep
  rw [Added, hookBlocks_append, hookBlocks_append, hookBlocks_cons]
  refine ⟨hsep.insert hpos (fun b hb => ?_) (fun b hb => ?_), fun x a => labels_insert⟩
  · obtain ⟨h', hh', rfl⟩ := List.mem_map.1 hb
    exact h.front_le h' hh'
  · obtain ⟨h', hh', rfl⟩ := List.mem_map.1 hb
    exact h.le_back h' hh'

/-- Two hooks of the list as one. -/
theorem join {c : Hook H} (h : Added start numBytes handler l (f ++ a :: b :: t))
    (hstop : a.toBlock.stop = b.start.toNat) (hlabel : a.handler = b.handler)
    (hc : c.toBlock = a.toBlock.join b.toBlock) :
    Added start numBytes handler l (f ++ c :: t) := by
  obtain ⟨hsep, hlabels⟩ := h
  rw [hookBlocks_append, hookBlocks_cons, hookBlocks_cons] at hsep hlabels
  rw [Added, hookBlocks_append, hookBlocks_cons, hc]
  exact ⟨separated_join hsep hstop, fun x a => (labels_join hstop hlabel).trans (hlabels x a)⟩

theorem extend (handler : H) (hb : b.toBlock.stop = start.toNat)
    (hrange : start.toNat + numBytes.toNat < 2 ^ 32) :
    ({ b with numBytes := b.numBytes + numBytes } : Hook H).toBlock =
      b.toBlock.join (Hook.toBlock ⟨start, numBytes, handler⟩) := by
  have hn : (b.numBytes + numBytes).toNat = b.numBytes.toNat + numBytes.toNat := by
    unfold Block.stop Hook.toBlock at hb
    rw [BitVec.toNat_add, Nat.mod_eq_of_lt]
    simp only at hb
    omega
  simp only [Hook.toBlock, Block.join, hn]

theorem stop_eq (h : Place start numBytes (f ++ [b]) back) (hb : b.stop = start) :
    b.toBlock.stop = start.toNat := by
  rw [← Hook.stop_toNat (h.below b (by simp)), hb]

/-- The last hook before the new one, extended to its end. -/
theorem join_before (h : Place start numBytes (f ++ [b]) back) (hpos : 0 < numBytes.toNat)
    (hb : b.toBlock.stop = start.toNat) (hhandler : b.handler = handler) :
    Added start numBytes handler (f ++ [b] ++ back)
      (f ++ { b with numBytes := b.numBytes + numBytes } :: back) := by
  have hadd := h.add handler hpos
  rw [List.append_assoc f [b] (_ :: back), List.singleton_append] at hadd
  exact join hadd hb hhandler (extend handler hb h.range)

theorem extend_after (h : Place start numBytes front (a :: t))
    (ha : a.start = start + numBytes) (hhandler : a.handler = handler) :
    ({ a with start := a.start - numBytes, numBytes := a.numBytes + numBytes } : Hook H).toBlock =
      (Hook.toBlock ⟨start, numBytes, handler⟩).join a.toBlock := by
  have hbelow := h.below a (List.mem_append_right _ (.head _))
  have hle := h.le_back a (.head _)
  have hn : (a.numBytes + numBytes).toNat = numBytes.toNat + a.numBytes.toNat := by
    unfold Block.stop Hook.toBlock at hbelow
    rw [BitVec.toNat_add, Nat.mod_eq_of_lt (by simp only at hbelow; omega), Nat.add_comm]
  have hs : a.start - numBytes = start := by
    rw [ha]
    bv_omega
  simp only [Hook.toBlock, Block.join, hn, hs, hhandler]

end Place

theorem stop_range (hrange : start.toNat + numBytes.toNat < 2 ^ 32) :
    (start + numBytes).toNat = start.toNat + numBytes.toNat := by
  rw [BitVec.toNat_add, Nat.mod_eq_of_lt hrange]

theorem insertHook_place (hsep : Separated (hookBlocks l)) (hbelow : Below l)
    (hrange : start.toNat + numBytes.toNat < 2 ^ 32)
    (hbefore : ¬ (l.takeWhile (·.start < start)).getLast?.any (start < ·.stop))
    (hafter : ¬ (l.dropWhile (·.start < start)).head?.any (·.start < start + numBytes)) :
    Place start numBytes (l.takeWhile (·.start < start)) (l.dropWhile (·.start < start)) := by
  have happ : l.takeWhile (·.start < start) ++ l.dropWhile (·.start < start) = l :=
    List.takeWhile_append_dropWhile
  have hsep' := happ.symm ▸ hsep
  rw [hookBlocks_append, separated_append] at hsep'
  have hmem : ∀ h ∈ l.takeWhile (·.start < start), h ∈ l := fun h hh =>
    (List.takeWhile_prefix _).subset hh
  refine ⟨by rwa [happ], by rwa [happ], fun h hh => ?_, fun h hh => ?_, hrange⟩
  · cases hlast : (l.takeWhile (·.start < start)).getLast? with
    | none =>
      rw [List.getLast?_eq_none_iff.1 hlast] at hh
      cases hh
    | some b =>
      have hb := hmem b (List.mem_of_getLast? hlast)
      rw [hlast, Option.any_some, decide_eq_true_eq, BitVec.lt_def,
        Hook.stop_toNat (hbelow b hb)] at hbefore
      exact (stop_le_last hsep'.1 hlast hh).trans (Nat.le_of_not_lt hbefore)
  · cases hhead : (l.dropWhile (·.start < start)).head? with
    | none =>
      rw [List.head?_eq_none_iff.1 hhead] at hh
      cases hh
    | some a =>
      rw [hhead, Option.any_some, decide_eq_true_eq, BitVec.lt_def, stop_range hrange] at hafter
      exact (Nat.le_of_not_lt hafter).trans (head_le_start hsep'.2.1 hhead hh)

theorem filter_head {p : Hook H → Prop} [DecidablePred p] {a : Hook H}
    (h : l.head?.filter (fun h => decide (p h)) = some a) : ∃ t, l = a :: t ∧ p a := by
  obtain ⟨hhead, hp⟩ := Option.filter_eq_some_iff.1 h
  obtain ⟨t, rfl⟩ := List.head?_eq_some_iff.1 hhead
  exact ⟨t, rfl, of_decide_eq_true hp⟩

theorem filter_last {p : Hook H → Prop} [DecidablePred p] {b : Hook H}
    (h : l.getLast?.filter (fun h => decide (p h)) = some b) : ∃ f, l = f ++ [b] ∧ p b := by
  obtain ⟨hlast, hp⟩ := Option.filter_eq_some_iff.1 h
  obtain ⟨f, rfl⟩ := List.getLast?_eq_some_iff.1 hlast
  exact ⟨f, rfl, of_decide_eq_true hp⟩

/-- Setting a hook inside a page adds its block. -/
theorem insertHook_blocks (hsep : Separated (hookBlocks l)) (hbelow : Below l)
    (hpos : 0 < numBytes.toNat) (hrange : start.toNat + numBytes.toNat < 2 ^ 32)
    (hpage : page <<< 12 ≤ start) (hend : start + numBytes ≤ bus.start + (page + 1) * 0x1000)
    (htouch : ∀ h ∈ l, h.toBlock.stop = start.toNat ∨ h.start = start + numBytes →
      h.handler = handler)
    (heq : insertHook bus page start numBytes handler l = .ok l') :
    Added start numBytes handler l l' ∧
    ∀ x, start.toNat ≤ x → x < start.toNat + numBytes.toNat → ∀ a, ¬ Labels (hookBlocks l) x a := by
  have happ : l.takeWhile (·.start < start) ++ l.dropWhile (·.start < start) = l :=
    List.takeWhile_append_dropWhile
  rw [insertHook] at heq
  by_cases hbefore : (l.takeWhile (·.start < start)).getLast?.any (start < ·.stop)
  · simp only [hbefore, if_true] at heq
    cases heq
  by_cases hafter : (l.dropWhile (·.start < start)).head?.any (·.start < start + numBytes)
  · simp only [hbefore, hafter, if_true] at heq
    cases heq
  have hplace := insertHook_place hsep hbelow hrange hbefore hafter
  simp only [hbefore, hafter] at heq
  generalize l.takeWhile (·.start < start) = front at *
  generalize l.dropWhile (·.start < start) = back at *
  subst happ
  have hadd := hplace.add handler hpos
  refine ⟨?_, fun x hx hx' a hlabel => ?_⟩
  · cases hb : front.getLast?.filter (·.stop = start) with
    | none =>
      cases ha : back.head?.filter (·.start = start + numBytes) with
      | none =>
        simp only [hb, ha] at heq
        cases heq
        rw [max_eq_left hpage, min_eq_right hend, BitVec.add_comm start, BitVec.add_sub_cancel]
        exact hadd
      | some a =>
        simp only [hb, ha] at heq
        cases heq
        obtain ⟨t, rfl, hstart⟩ := filter_head ha
        have hlabel := htouch a (List.mem_append_right _ (.head _)) (.inr hstart)
        exact Place.join hadd (by rw [hstart, stop_range hrange]; rfl) hlabel.symm
          (hplace.extend_after hstart hlabel)
    | some b =>
      cases ha : back.head?.filter (·.start = start + numBytes) with
      | none =>
        simp only [hb, ha] at heq
        cases heq
        obtain ⟨f, rfl, hstop⟩ := filter_last hb
        rw [List.dropLast_concat]
        have hstop := hplace.stop_eq hstop
        exact hplace.join_before hpos hstop (htouch b (by simp) (.inl hstop))
      | some a =>
        simp only [hb, ha] at heq
        cases heq
        obtain ⟨f, rfl, hstop⟩ := filter_last hb
        obtain ⟨t, rfl, hstart⟩ := filter_head ha
        have hstop := hplace.stop_eq hstop
        have hlabel := htouch b (by simp) (.inl hstop)
        have hlabel' := htouch a (by simp) (.inr hstart)
        rw [List.dropLast_concat, List.tail_cons]
        have hmeet : ({ b with numBytes := b.numBytes + numBytes } : Hook H).toBlock.stop =
            a.start.toNat := by
          rw [Place.extend handler hstop hrange, stop_join, hstop, hstart, stop_range hrange]
          rfl
        exact Place.join (hplace.join_before hpos hstop hlabel) hmeet (hlabel.trans hlabel'.symm)
          (Place.extend a.handler hmeet (hbelow a (by simp)))
  · rw [hookBlocks_append, labels_append] at hlabel
    rcases hlabel with ⟨_, hc, hin, -⟩ | ⟨_, hc, hin, -⟩
    · obtain ⟨h, hh, rfl⟩ := List.mem_map.1 hc
      exact absurd hin.2 (Nat.not_lt.2 ((hplace.front_le h hh).trans hx))
    · obtain ⟨h, hh, rfl⟩ := List.mem_map.1 hc
      exact absurd hin.1 (Nat.not_le.2 (Nat.lt_of_lt_of_le hx' (hplace.le_back h hh)))

/-- A hook that overlaps one of the list is refused. -/
theorem insertHook_refuses (hsep : Separated (hookBlocks l)) (hbelow : Below l) (hh : h ∈ l)
    (hrange : start.toNat + numBytes.toNat < 2 ^ 32) (hover : h.overlaps start numBytes) :
    ∃ e, insertHook bus page start numBytes handler l = .error e := by
  rw [insertHook]
  by_cases hbefore : (l.takeWhile (·.start < start)).getLast?.any (start < ·.stop)
  · exact ⟨_, if_pos hbefore⟩
  by_cases hafter : (l.dropWhile (·.start < start)).head?.any (·.start < start + numBytes)
  · exact ⟨_, (if_neg hbefore).trans (if_pos hafter)⟩
  have hplace := insertHook_place hsep hbelow hrange hbefore hafter
  simp only [Hook.overlaps, Bool.not_eq_true', Bool.or_eq_false_iff, decide_eq_false_iff_not,
    BitVec.le_def, Hook.stop_toNat (hbelow h hh), stop_range hrange] at hover
  rw [← List.takeWhile_append_dropWhile (p := (·.start < start)) (l := l)] at hh
  rcases List.mem_append.1 hh with hh | hh
  · exact absurd (hplace.front_le h hh) hover.1
  · exact absurd (hplace.le_back h hh) hover.2

end Mikage
