import Mathlib.Data.List.Infix

/-! Hash chains: lists in which each item carries the digest of the hash before it and of the item's
    own key. When no two of the inputs that were hashed collide, an equal hash at one place makes all
    the places before it equal (`Chained.agree`). -/

namespace Dsnet

section HashChain
variable {β η κ : Type} (digest : η → κ → η) (key : β → κ)

/-- The hash after the list, which starts with `h`. -/
def lastHashOf (h : η) (l : List (β × η)) : η := (l.getLast?.map Prod.snd).getD h

/-- Each item has the digest of the hash before it and of its key. -/
def Chained (h : η) (l : List (β × η)) : Prop :=
  ∀ (i : Nat) (x : β × η), l[i]? = some x → x.2 = digest (lastHashOf h (l.take i)) (key x.1)

/-- No two different inputs hashed for the two lists have the same digest. -/
def NoCollision (h : η) (l l' : List (β × η)) : Prop :=
  ∀ (i j : Nat) (x y : β × η), l[i]? = some x → l'[j]? = some y →
    digest (lastHashOf h (l.take i)) (key x.1) = digest (lastHashOf h (l'.take j)) (key y.1) →
    lastHashOf h (l.take i) = lastHashOf h (l'.take j) ∧ key x.1 = key y.1

variable {digest key} {h : η} {l l' : List (β × η)}

instance [DecidableEq η] [DecidableEq κ] : Decidable (NoCollision digest key h l l') :=
  decidable_of_iff (∀ i : Fin l.length, ∀ j : Fin l'.length,
      digest (lastHashOf h (l.take i)) (key l[i].1) = digest (lastHashOf h (l'.take j)) (key l'[j].1) →
      lastHashOf h (l.take i) = lastHashOf h (l'.take j) ∧ key l[i].1 = key l'[j].1) <| by
    refine ⟨fun hall i j x y hx hy => ?_, fun hfree i j => ?_⟩
    · obtain ⟨hi, rfl⟩ := List.getElem?_eq_some_iff.mp hx
      obtain ⟨hj, rfl⟩ := List.getElem?_eq_some_iff.mp hy
      exact hall ⟨i, hi⟩ ⟨j, hj⟩
    · exact hfree i j _ _ (List.getElem?_eq_getElem i.isLt) (List.getElem?_eq_getElem j.isLt)

theorem chained_nil : Chained digest key h [] := by
  intro i x hx
  simp at hx

theorem lastHashOf_concat (x : β × η) : lastHashOf h (l ++ [x]) = x.2 := by
  simp [lastHashOf]

theorem lastHashOf_append (l l' : List (β × η)) :
    lastHashOf h (l ++ l') = lastHashOf (lastHashOf h l) l' := by
  rcases List.eq_nil_or_concat' l' with rfl | ⟨before, x, rfl⟩
  · rw [List.append_nil]
    rfl
  · rw [← List.append_assoc, lastHashOf_concat, lastHashOf_concat]

/-- The hash before an item is that of the item before it. -/
theorem lastHashOf_take_succ {i : Nat} {x : β × η} (hx : l[i]? = some x) :
    lastHashOf h (l.take (i + 1)) = x.2 := by
  rw [List.take_add_one, hx]
  exact lastHashOf_concat x

/-- One more item. -/
theorem Chained.concat {x : β × η} (hl : Chained digest key h l)
    (hx : x.2 = digest (lastHashOf h l) (key x.1)) : Chained digest key h (l ++ [x]) := by
  intro i y hy
  rcases Nat.lt_trichotomy i l.length with hi | rfl | hi
  · rw [List.getElem?_append_left hi] at hy
    rw [List.take_append_of_le_length hi.le]
    exact hl i y hy
  · obtain rfl : x = y := by simpa using hy
    rwa [List.take_left]
  · rw [List.getElem?_eq_none (by simp; omega)] at hy
    cases hy

/-- A shorter chain. -/
theorem Chained.of_prefix (hl : Chained digest key h l) (hp : l' <+: l) :
    Chained digest key h l' := by
  obtain ⟨t, rfl⟩ := hp
  intro i x hx
  have hi := (List.getElem?_eq_some_iff.mp hx).1
  have hx' : (l' ++ t)[i]? = some x := by rwa [List.getElem?_append_left hi]
  have := hl i x hx'
  rwa [List.take_append_of_le_length hi.le] at this

/-- Only the keys and the hashes matter. -/
theorem Chained.congr (hl : Chained digest key h l)
    (heq : l.map (Prod.map key id) = l'.map (Prod.map key id)) : Chained digest key h l' := by
  have hlast : ∀ m : List (β × η), lastHashOf h m = lastHashOf h (m.map (Prod.map key id)) := by
    intro m
    unfold lastHashOf
    rw [List.getLast?_map, Option.map_map]
    rfl
  intro i y hy
  obtain ⟨x, hx, hxy⟩ : ∃ x, l[i]? = some x ∧ Prod.map key id x = Prod.map key id y := by
    have hi := congrArg (fun m : List (κ × η) => m[i]?) heq
    simpa [List.getElem?_map, hy] using hi
  obtain ⟨hkey, hhash⟩ := Prod.mk.inj hxy
  have hx' := hl i x hx
  rw [hlast, List.map_take, heq, ← List.map_take, ← hlast, hkey] at hx'
  exact hhash.symm.trans hx'

/-- Shorter lists. -/
theorem NoCollision.of_prefix {m m' : List (β × η)} (hfree : NoCollision digest key h l l')
    (hp : m <+: l) (hp' : m' <+: l') : NoCollision digest key h m m' := by
  intro i j x y hx hy
  obtain ⟨t, rfl⟩ := hp
  obtain ⟨t', rfl⟩ := hp'
  have hi := (List.getElem?_eq_some_iff.mp hx).1
  have hj := (List.getElem?_eq_some_iff.mp hy).1
  have hin := hfree i j x y (by rwa [List.getElem?_append_left hi])
    (by rwa [List.getElem?_append_left hj])
  rwa [List.take_append_of_le_length hi.le, List.take_append_of_le_length hj.le] at hin

/-- Two chains with the same hash at a place have the same keys and hashes up to there. -/
theorem Chained.agree (hl : Chained digest key h l) (hl' : Chained digest key h l')
    (hfree : NoCollision digest key h l l') : ∀ {k : Nat} {x y : β × η}, l[k]? = some x →
    l'[k]? = some y → x.2 = y.2 → ∀ j ≤ k, ∃ a b, l[j]? = some a ∧ l'[j]? = some b ∧
      key a.1 = key b.1 ∧ a.2 = b.2
  | 0, x, y, hx, hy, hxy, j, hj => by
      obtain rfl := Nat.le_zero.mp hj
      have hin := hfree 0 0 x y hx hy (by rw [← hl 0 x hx, ← hl' 0 y hy, hxy])
      exact ⟨x, y, hx, hy, hin.2, hxy⟩
  | k + 1, x, y, hx, hy, hxy, j, hj => by
      have hin := hfree (k + 1) (k + 1) x y hx hy (by rw [← hl _ x hx, ← hl' _ y hy, hxy])
      rcases Nat.le_succ_iff.mp hj with hj | rfl
      · obtain ⟨a, ha⟩ : ∃ a, l[k]? = some a := ⟨_, List.getElem?_eq_getElem
          (Nat.lt_of_succ_lt (List.getElem?_eq_some_iff.mp hx).1)⟩
        obtain ⟨b, hb⟩ : ∃ b, l'[k]? = some b := ⟨_, List.getElem?_eq_getElem
          (Nat.lt_of_succ_lt (List.getElem?_eq_some_iff.mp hy).1)⟩
        have hab : a.2 = b.2 := by
          rw [← lastHashOf_take_succ (h := h) ha, ← lastHashOf_take_succ (h := h) hb]
          exact hin.1
        exact Chained.agree hl hl' hfree ha hb hab j hj
      · exact ⟨x, y, hx, hy, hin.2, hxy⟩

/-- Two chains whose first `p` and `q` items end in the same hash are the same up to there, when no item has the
    hash of the empty list. -/
theorem Chained.agree_of_lastHash (hl : Chained digest key h l) (hl' : Chained digest key h l')
    (hfree : NoCollision digest key h l l') (hne : ∀ x ∈ l, x.2 ≠ h) (hne' : ∀ x ∈ l', x.2 ≠ h) :
    ∀ {p q : Nat}, p ≤ l.length → q ≤ l'.length →
      lastHashOf h (l.take p) = lastHashOf h (l'.take q) →
      p = q ∧ ∀ j < p, ∃ a b, l[j]? = some a ∧ l'[j]? = some b ∧ key a.1 = key b.1
  | 0, 0, _, _, _ => ⟨rfl, fun _ hj => by cases hj⟩
  | 0, q + 1, _, hq, heq => by
      have hy : l'[q]? = some l'[q] := List.getElem?_eq_getElem hq
      rw [lastHashOf_take_succ hy] at heq
      exact (hne' _ (List.getElem_mem hq) heq.symm).elim
  | p + 1, 0, hp, _, heq => by
      have hx : l[p]? = some l[p] := List.getElem?_eq_getElem hp
      rw [lastHashOf_take_succ hx] at heq
      exact (hne _ (List.getElem_mem hp) heq).elim
  | p + 1, q + 1, hp, hq, heq => by
      have hx : l[p]? = some l[p] := List.getElem?_eq_getElem hp
      have hy : l'[q]? = some l'[q] := List.getElem?_eq_getElem hq
      rw [lastHashOf_take_succ hx, lastHashOf_take_succ hy] at heq
      obtain ⟨hbefore, hkey⟩ := hfree p q _ _ hx hy (by rw [← hl p _ hx, ← hl' q _ hy, heq])
      obtain ⟨rfl, hall⟩ := Chained.agree_of_lastHash hl hl' hfree hne hne' (Nat.le_of_succ_le hp)
        (Nat.le_of_succ_le hq) hbefore
      refine ⟨rfl, fun j hj => ?_⟩
      rcases Nat.lt_succ_iff_lt_or_eq.mp hj with hj | rfl
      · exact hall j hj
      · exact ⟨_, _, hx, hy, hkey⟩

end HashChain
end Dsnet
