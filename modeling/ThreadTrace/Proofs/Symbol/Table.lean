import ThreadTrace.Symbol.Executable
import Mathlib.Data.List.Basic
import Mathlib.Data.List.Induction
import Mathlib.Algebra.Group.Nat.Defs

/-!
# ThreadTrace.Proofs.Symbol.Table — the symbol that an address belongs to

The search in a sorted table ends at the symbol that a scan of the symbols, in the order in which
they came, would choose (`SymbolTable.find?_ofList`).  This is one symbol only, the nearest that is
not above the address: `SymbolTable.shownName?_of_covers` says what that means for an address inside
of several symbols.
-/

namespace ThreadTrace

variable {symbols : List TextSymbol} {address : UInt64} {s n : TextSymbol}

theorem TextSymbol.reaches_iff : s.reaches address ↔
    s.size = 0 ∨ address.toNat < min (s.address.toNat + s.size.toNat) (2 ^ 64 - 1) := by
  rw [TextSymbol.reaches, Bool.or_eq_true, beq_iff_eq, decide_eq_true_iff]
  rfl

/-! ### The nearest symbol -/

/-- Of the symbols that are not above an address, the last of those with the greatest address. -/
structure Nearest (symbols : List TextSymbol) (address : UInt64) (s : TextSymbol) : Prop where
  le : s.address ≤ address
  greatest : ∀ t ∈ symbols, t.address ≤ address → t.address ≤ s.address
  last : (symbols.filter (·.address == s.address)).getLast? = some s

theorem Nearest.mem (h : Nearest symbols address s) : s ∈ symbols :=
  (List.mem_filter.1 (List.mem_of_getLast? h.last)).1

/-- What a search among symbols should find. -/
def IsNearest (symbols : List TextSymbol) (address : UInt64) : Option TextSymbol → Prop
  | none => ∀ t ∈ symbols, ¬ t.address ≤ address
  | some s => Nearest symbols address s

theorem IsNearest.eq {found found' : Option TextSymbol} (h : IsNearest symbols address found)
    (h' : IsNearest symbols address found') : found = found' := by
  cases found with
  | none =>
    cases found' with
    | none => rfl
    | some s => exact absurd h'.le (h s h'.mem)
  | some s =>
    cases found' with
    | none => exact absurd h.le (h' s h.mem)
    | some s' =>
      have haddress : s.address = s'.address :=
        UInt64.le_antisymm (h'.greatest s h.mem h.le) (h.greatest s' h'.mem h'.le)
      have hlast := h.last
      rw [haddress, h'.last] at hlast
      exact hlast.symm

/-! ### Scanning -/

/-- A symbol takes the place of the best one so far, unless it is above the address or below that. -/
def scanStep (address : UInt64) (best : Option TextSymbol) (s : TextSymbol) : Option TextSymbol :=
  if s.address ≤ address ∧ ∀ b ∈ best, b.address ≤ s.address then some s else best

/-- The best symbol for an address, by looking at one after another. -/
def scan (symbols : List TextSymbol) (address : UInt64) : Option TextSymbol :=
  symbols.foldl (scanStep address) none

theorem scan_concat (symbols : List TextSymbol) (address : UInt64) (s : TextSymbol) :
    scan (symbols ++ [s]) address = scanStep address (scan symbols address) s := by
  simp [scan, List.foldl_append]

/-- A symbol that is not worse than the best so far is the nearest. -/
theorem IsNearest.concat_of_better {best : Option TextSymbol} (h : IsNearest symbols address best)
    (hle : s.address ≤ address) (hbetter : ∀ b ∈ best, b.address ≤ s.address) :
    Nearest (symbols ++ [s]) address s where
  le := hle
  greatest t ht htle := by
    obtain ht | ht := List.mem_append.1 ht
    · cases best with
      | none => exact absurd htle (h t ht)
      | some b => exact UInt64.le_trans (h.greatest t ht htle) (hbetter b rfl)
    · obtain rfl := List.mem_singleton.1 ht
      exact UInt64.le_refl _
  last := by simp [List.filter_append]

/-- Any other symbol changes nothing. -/
theorem IsNearest.concat_of_worse {best : Option TextSymbol} (h : IsNearest symbols address best)
    (hworse : s.address ≤ address → ∃ b ∈ best, ¬ b.address ≤ s.address) :
    IsNearest (symbols ++ [s]) address best := by
  cases best with
  | none =>
    intro t ht htle
    obtain ht | ht := List.mem_append.1 ht
    · exact h t ht htle
    · obtain rfl := List.mem_singleton.1 ht
      obtain ⟨b, hb, -⟩ := hworse htle
      cases hb
  | some b =>
    have hbelow : s.address ≤ address → s.address < b.address := by
      intro hle
      obtain ⟨b', hb', hlt⟩ := hworse hle
      obtain rfl := Option.some.inj hb'
      exact UInt64.not_le.1 hlt
    refine ⟨h.le, fun t ht htle => ?_, ?_⟩
    · obtain ht | ht := List.mem_append.1 ht
      · exact h.greatest t ht htle
      · obtain rfl := List.mem_singleton.1 ht
        exact UInt64.le_of_lt (hbelow htle)
    · -- the new symbol is not at the address of the best, which is not above
      have hne : (s.address == b.address) = false := by
        rw [beq_eq_false_iff_ne]
        intro heq
        have hlt := hbelow (heq ▸ h.le)
        rw [heq] at hlt
        exact UInt64.lt_irrefl _ hlt
      rw [List.filter_append, List.filter_singleton, hne, cond_false, List.append_nil]
      exact h.last

theorem isNearest_scan (symbols : List TextSymbol) (address : UInt64) :
    IsNearest symbols address (scan symbols address) := by
  induction symbols using List.reverseRecOn with
  | nil => exact fun t ht => absurd ht List.not_mem_nil
  | append_singleton symbols s ih =>
    rw [scan_concat, scanStep]
    split_ifs with hbetter
    · exact ih.concat_of_better hbetter.1 hbetter.2
    · refine ih.concat_of_worse fun hle => ?_
      by_contra hnone
      exact hbetter ⟨hle, fun b hb => Decidable.not_not.1 fun hlt => hnone ⟨b, hb, hlt⟩⟩

theorem scan_eq_some_iff : scan symbols address = some s ↔ Nearest symbols address s := by
  constructor
  · intro h
    have hscan := isNearest_scan symbols address
    rwa [h] at hscan
  · exact fun h => (isNearest_scan symbols address).eq h

/-! ### Searching -/

namespace SymbolTable

/-- The symbols before a place, and only these, are not above an address. -/
def Splits (t : SymbolTable) (address : UInt64) (place : Nat) : Prop :=
  ∀ i, ∀ h : i < t.symbols.size, t.symbols[i].address ≤ address ↔ i < place

theorem getElem_le_getElem {t : SymbolTable}
    (hsorted : t.symbols.toList.Pairwise (·.address ≤ ·.address)) {i j : Nat} (hij : i ≤ j)
    (hj : j < t.symbols.size) : t.symbols[i].address ≤ t.symbols[j].address := by
  obtain rfl | hlt := Nat.eq_or_lt_of_le hij
  · exact UInt64.le_refl _
  · exact List.pairwise_iff_getElem.1 hsorted i j (Nat.lt_trans hlt hj) hj hlt

/-- The bounds close in on the place where the symbols split. -/
theorem splits_countWithin {t : SymbolTable}
    (hsorted : t.symbols.toList.Pairwise (·.address ≤ ·.address)) {low high : Nat}
    (hle : low ≤ high) (hhigh : high ≤ t.symbols.size)
    (hbelow : ∀ i, ∀ h : i < t.symbols.size, i < low → t.symbols[i].address ≤ address)
    (habove : ∀ i, ∀ h : i < t.symbols.size, high ≤ i → ¬ t.symbols[i].address ≤ address) :
    t.countWithin address low high ≤ t.symbols.size ∧
      t.Splits address (t.countWithin address low high) := by
  fun_induction t.countWithin address low high with
  | case1 low high hlt middle s hs hsle ih =>
    obtain ⟨hmiddle, rfl⟩ := Array.getElem?_eq_some_iff.1 hs
    refine ih (by omega) hhigh (fun i hi hlow => ?_) habove
    exact UInt64.le_trans (getElem_le_getElem hsorted (by omega) hmiddle) hsle
  | case2 low high hlt middle s hs hsle ih =>
    obtain ⟨hmiddle, rfl⟩ := Array.getElem?_eq_some_iff.1 hs
    refine ih (by omega) (by omega) hbelow fun i hi hmi hile => hsle ?_
    exact UInt64.le_trans (getElem_le_getElem hsorted hmi hi) hile
  | case3 low high hlt middle hs =>
    rw [Array.getElem?_eq_none_iff] at hs
    omega
  | case4 low high hlt =>
    refine ⟨by omega, fun i hi => ⟨fun hile => ?_, hbelow i hi⟩⟩
    by_contra hnot
    exact habove i hi (by omega) hile

/-- The symbols of a table, in ascending order of address. -/
def sorted (symbols : List TextSymbol) : List TextSymbol :=
  symbols.mergeSort fun a b => decide (a.address ≤ b.address)

theorem le_address_trans (a b c : TextSymbol) (hab : decide (a.address ≤ b.address) = true)
    (hbc : decide (b.address ≤ c.address) = true) : decide (a.address ≤ c.address) = true :=
  decide_eq_true (UInt64.le_trans (of_decide_eq_true hab) (of_decide_eq_true hbc))

theorem le_address_total (a b : TextSymbol) :
    (decide (a.address ≤ b.address) || decide (b.address ≤ a.address)) = true := by
  simpa using UInt64.le_total a.address b.address

theorem pairwise_sorted (symbols : List TextSymbol) :
    (sorted symbols).Pairwise (·.address ≤ ·.address) :=
  (List.pairwise_mergeSort le_address_trans le_address_total symbols).imp of_decide_eq_true

/-- Symbols at one address stay in the order in which they came. -/
theorem filter_sorted (symbols : List TextSymbol) (a : UInt64) :
    (sorted symbols).filter (·.address == a) = symbols.filter (·.address == a) := by
  have hperm : (sorted symbols).Perm symbols := List.mergeSort_perm _ _
  have hequal : (symbols.filter (·.address == a)).Pairwise fun s t =>
      decide (s.address ≤ t.address) = true := by
    refine List.pairwise_of_forall_mem_list fun s hs t ht => decide_eq_true ?_
    rw [beq_iff_eq.1 (List.mem_filter.1 hs).2, beq_iff_eq.1 (List.mem_filter.1 ht).2]
    exact UInt64.le_refl a
  -- equal symbols are in order already, so sorting keeps them as a part of the list
  have hsub : (symbols.filter (·.address == a)).Sublist (sorted symbols) :=
    List.sublist_mergeSort le_address_trans le_address_total hequal List.filter_sublist
  have hsub' := hsub.filter (·.address == a)
  rw [List.filter_filter] at hsub'
  simp only [Bool.and_self] at hsub'
  exact (hsub'.eq_of_length (hperm.filter _).length_eq.symm).symm

/-- The symbol that a search ends at. -/
def candidate? (t : SymbolTable) (address : UInt64) : Option TextSymbol :=
  match t.count address with
  | 0 => none
  | n + 1 => t.symbols[n]?

theorem find?_eq (t : SymbolTable) (address : UInt64) :
    t.find? address = (t.candidate? address).filter (·.reaches address) := by
  rw [find?, candidate?]
  cases t.count address <;> rfl

/-- The symbols that are not above an address come first, and are counted. -/
theorem exists_split (symbols : List TextSymbol) (address : UInt64) :
    ∃ front back, sorted symbols = front ++ back ∧ (ofList symbols).count address = front.length ∧
      (∀ s ∈ front, s.address ≤ address) ∧ ∀ s ∈ back, ¬ s.address ≤ address := by
  obtain ⟨hle, hsplits⟩ : (ofList symbols).count address ≤ (sorted symbols).length ∧
      ∀ i, ∀ h : i < (sorted symbols).length,
        (sorted symbols)[i].address ≤ address ↔ i < (ofList symbols).count address := by
    refine splits_countWithin (t := ofList symbols) (pairwise_sorted symbols) (Nat.zero_le _)
      (Nat.le_refl _) ?_ ?_
    · exact fun i hi hlow => absurd hlow (Nat.not_lt_zero i)
    · exact fun i hi hhigh => absurd hi (Nat.not_lt_of_le hhigh)
  refine ⟨(sorted symbols).take _, (sorted symbols).drop _, (List.take_append_drop _ _).symm,
    (List.length_take_of_le hle).symm, fun s hs => ?_, fun s hs => ?_⟩
  · obtain ⟨i, hi, rfl⟩ := List.mem_take_iff_getElem.1 hs
    exact (hsplits i (by omega)).2 (by omega)
  · obtain ⟨i, hi, rfl⟩ := List.mem_drop_iff_getElem.1 hs
    exact fun hsle => absurd ((hsplits _ (by omega)).1 hsle) (by omega)

theorem isNearest_candidate? (symbols : List TextSymbol) (address : UInt64) :
    IsNearest symbols address ((ofList symbols).candidate? address) := by
  have hperm : (sorted symbols).Perm symbols := List.mergeSort_perm _ _
  obtain ⟨front, back, hsplit, hcount, hfront, hback⟩ := exists_split symbols address
  rw [candidate?, hcount]
  cases front using List.reverseRecOn with
  | nil =>
    intro t ht
    rw [← hperm.mem_iff, hsplit] at ht
    exact hback t ht
  | append_singleton front s =>
    have hfound : (ofList symbols).symbols[front.length]? = some s := by
      have hsymbols : (ofList symbols).symbols = (sorted symbols).toArray := rfl
      rw [hsymbols, List.getElem?_toArray, hsplit, List.append_assoc,
        List.getElem?_append_right (Nat.le_refl _), Nat.sub_self]
      rfl
    have hsle : s.address ≤ address := hfront s (by simp)
    simp only [List.length_append, List.length_singleton, hfound]
    refine ⟨hsle, fun t ht htle => ?_, ?_⟩
    · rw [← hperm.mem_iff, hsplit] at ht
      obtain ht | ht := List.mem_append.1 ht
      · obtain ht | ht := List.mem_append.1 ht
        · have hpairwise := pairwise_sorted symbols
          rw [hsplit, List.append_assoc] at hpairwise
          exact (List.pairwise_append.1 hpairwise).2.2 t ht s (by simp)
        · obtain rfl := List.mem_singleton.1 ht
          exact UInt64.le_refl _
      · exact absurd htle (hback t ht)
    · have hnone : back.filter (·.address == s.address) = [] := by
        refine List.filter_eq_nil_iff.2 fun t ht heq => hback t ht ?_
        rwa [beq_iff_eq.1 heq]
      rw [← filter_sorted, hsplit, List.filter_append, hnone, List.append_nil, List.filter_append]
      simp

/-- A search in the sorted table and a scan of the symbols as they came find the same. -/
theorem find?_ofList (symbols : List TextSymbol) (address : UInt64) :
    (ofList symbols).find? address = (scan symbols address).filter (·.reaches address) := by
  rw [find?_eq, (isNearest_candidate? symbols address).eq (isNearest_scan symbols address)]

end SymbolTable

/-! ### Inside of symbols -/

/-- The address is one of the bytes of a symbol. -/
def TextSymbol.Covers (s : TextSymbol) (address : UInt64) : Prop :=
  s.address ≤ address ∧ address.toNat < s.address.toNat + s.size.toNat

instance : Decidable (s.Covers address) := inferInstanceAs (Decidable (_ ∧ _))

/-- The end of a symbol is only cut back for the last of all addresses. -/
theorem TextSymbol.reaches_iff_covers (hle : s.address ≤ address)
    (hlast : address.toNat < 2 ^ 64 - 1) :
    s.reaches address ↔ s.Covers address ∨ s.size = 0 := by
  rw [TextSymbol.reaches_iff, TextSymbol.Covers, Nat.lt_min, or_comm]
  simp only [hle, hlast, true_and, and_true]

theorem exists_nearest (hs : s ∈ symbols) (hle : s.address ≤ address) :
    ∃ n, Nearest symbols address n ∧ s.address ≤ n.address := by
  have hscan := isNearest_scan symbols address
  cases hn : scan symbols address with
  | none =>
    rw [hn] at hscan
    exact absurd hle (hscan s hs)
  | some n =>
    rw [hn] at hscan
    exact ⟨n, hscan, hscan.greatest s hs hle⟩

namespace SymbolTable

theorem find?_of_nearest (hn : Nearest symbols address n) :
    (ofList symbols).find? address = if n.reaches address then some n else none := by
  rw [find?_ofList, scan_eq_some_iff.2 hn, Option.filter_some]

/-- **An address inside a symbol is named after the nearest symbol, or not at all.**  The nearest
symbol may be one that begins behind the first and ends before the address, or an alias that is
shorter: then there is no answer.  It may be without a size: then it answers, although it does not
cover the address.  The answer is a symbol that covers the address exactly if the nearest does, for
instance if no symbol ends between the beginning of the first and the address. -/
theorem shownName?_of_covers (hs : s ∈ symbols) (hcovers : s.Covers address)
    (hstop : s.address.toNat + s.size.toNat ≤ 2 ^ 64 - 1) (shown : String → String) :
    ∃ n, Nearest symbols address n ∧ s.address ≤ n.address ∧
      (ofList symbols).shownName? shown address =
        (if n.Covers address ∨ n.size = 0 then some (shown n.name) else none) ∧
      ((∃ t ∈ symbols, t.Covers address ∧ (ofList symbols).find? address = some t) ↔
        n.Covers address) ∧
      ((∀ t ∈ symbols, s.address ≤ t.address → t.address ≤ address → t.Covers address) →
        n.Covers address) := by
  obtain ⟨n, hn, hsn⟩ := exists_nearest hs hcovers.1
  have hreaches : n.reaches address ↔ n.Covers address ∨ n.size = 0 :=
    TextSymbol.reaches_iff_covers hn.le (Nat.lt_of_lt_of_le hcovers.2 hstop)
  have hfind := find?_of_nearest hn
  simp only [hreaches] at hfind
  refine ⟨n, hn, hsn, ?_, ⟨?_, fun hncovers => ?_⟩, fun hall => hall n hn.mem hsn hn.le⟩
  · rw [shownName?, hfind]
    split_ifs <;> rfl
  · rintro ⟨t, -, htcovers, ht⟩
    rw [hfind] at ht
    split_ifs at ht
    obtain rfl := Option.some.inj ht
    exact htcovers
  · exact ⟨n, hn.mem, hncovers, by rw [hfind, if_pos (.inl hncovers)]⟩

def outer : TextSymbol := ⟨0x1000, 0x100, "outer"⟩

def inner : TextSymbol := ⟨0x1010, 0x10, "inner"⟩

/-- Behind a function inside of another one the outer function is not found. -/
theorem shownName?_behind_inner :
    outer ∈ [outer, inner] ∧ outer.Covers 0x1050 ∧
      outer.address.toNat + outer.size.toNat ≤ 2 ^ 64 - 1 ∧
      Nearest [outer, inner] 0x1050 inner ∧ ¬ inner.Covers 0x1050 ∧
      (ofList [outer, inner]).shownName? id 0x1050 = none ∧
      ¬ ∃ t ∈ [outer, inner], t.Covers 0x1050 ∧
        (ofList [outer, inner]).find? 0x1050 = some t := by
  have hmem : outer ∈ [outer, inner] := List.mem_cons_self
  have hcovers : outer.Covers 0x1050 := by decide
  have hstop : outer.address.toNat + outer.size.toNat ≤ 2 ^ 64 - 1 := by decide
  have hinner : Nearest [outer, inner] 0x1050 inner := scan_eq_some_iff.1 (by decide)
  have hbehind : ¬ inner.Covers 0x1050 := by decide
  obtain ⟨n, hn, -, hshown, hfound, -⟩ := shownName?_of_covers hmem hcovers hstop id
  have hsome : some n = some inner := IsNearest.eq hn hinner
  obtain rfl := Option.some.inj hsome
  refine ⟨hmem, hcovers, hstop, hinner, hbehind, hshown, fun h => hbehind (hfound.1 h)⟩

end SymbolTable

end ThreadTrace
