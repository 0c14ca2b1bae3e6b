import TensorLowering.Proofs.Tensor.Entries

/-!
# Broadcasting

Two size lists broadcast when, with ones in front of the shorter one, the two sizes of every axis are
equal or one of them is one. The common sizes take on every axis the size other than one, and an
operand is read at the coordinates of its own axes, where an axis of size one is read at zero.

## Main statements

* `Indexing.broadcastSizes_eq_some_iff`: the common sizes of two size lists.
* `Indexing.sourceOffset_eq_ok`: where an operand is read.
-/

namespace TensorLowering.Indexing

/-- The sizes behind ones, so that there are as many axes as asked for. -/
def padTo (rank : Nat) (sizes : List Nat) : List Nat :=
  List.replicate (rank - sizes.length) 1 ++ sizes

/-- Two sizes that an axis can have in the operands of a broadcast. -/
def Fits (l r : Nat) : Prop := l = r ∨ l = 1 ∨ r = 1

instance (l r : Nat) : Decidable (Fits l r) := inferInstanceAs (Decidable (_ ∨ _))

/-- The size of an axis that has two sizes in the operands: the one that is not one. -/
def fittedSize (l r : Nat) : Nat := if l = 1 then r else l

/-- With ones in front of the shorter list, the two sizes of every axis fit. -/
def Broadcasts (lhs rhs : List Nat) : Prop :=
  List.Forall₂ Fits (padTo (max lhs.length rhs.length) lhs) (padTo (max lhs.length rhs.length) rhs)

instance (lhs rhs : List Nat) : Decidable (Broadcasts lhs rhs) :=
  inferInstanceAs (Decidable (List.Forall₂ _ _ _))

/-- The sizes that two operands are brought to. -/
def commonSizes (lhs rhs : List Nat) : List Nat :=
  List.zipWith fittedSize (padTo (max lhs.length rhs.length) lhs)
    (padTo (max lhs.length rhs.length) rhs)

/-- The coordinates that an operand with the given sizes is read at: an axis of size one is read at
zero, and the axes that only the result has are dropped. -/
def sourceCoordinates (sizes coords : List Nat) : List Nat :=
  (List.zipWith (fun size coord => if size = 1 then 0 else coord) (padTo coords.length sizes)
    coords).drop (coords.length - sizes.length)

theorem broadcastExtent_eq_some_iff {l r extent : Nat} :
    broadcastExtent l r = some extent ↔ Fits l r ∧ fittedSize l r = extent := by
  unfold broadcastExtent Fits fittedSize
  split_ifs <;> simp_all

section Reversed

variable {ls rs : List Nat}

/-- The sizes from the last axis on, before ones. -/
def padBack (rank : Nat) (sizes : List Nat) : List Nat :=
  sizes ++ List.replicate (rank - sizes.length) 1

theorem reverse_padTo (rank : Nat) (sizes : List Nat) :
    (padTo rank sizes).reverse = padBack rank sizes.reverse := by
  simp [padTo, padBack]

@[simp] theorem padBack_nil (rank : Nat) : padBack rank [] = List.replicate rank 1 := rfl

@[simp] theorem padBack_length (sizes : List Nat) : padBack sizes.length sizes = sizes := by
  simp [padBack]

@[simp] theorem padBack_cons (rank size : Nat) (sizes : List Nat) :
    padBack (rank + 1) (size :: sizes) = size :: padBack rank sizes := by
  simp [padBack]

theorem fits_one_left (r : Nat) : Fits 1 r := .inr (.inl rfl)

theorem fits_one_right (l : Nat) : Fits l 1 := .inr (.inr rfl)

/-- An operand without axes fits all sizes, and leaves them as they are. -/
theorem broadcast_ones_left (rs : List Nat) :
    List.Forall₂ Fits (List.replicate rs.length 1) rs ∧
      List.zipWith fittedSize (List.replicate rs.length 1) rs = rs := by
  induction rs with
  | nil => exact ⟨.nil, rfl⟩
  | cons r rs ih => exact ⟨.cons (fits_one_left r) ih.1, congrArg (r :: ·) ih.2⟩

theorem broadcast_ones_right (ls : List Nat) :
    List.Forall₂ Fits ls (List.replicate ls.length 1) ∧
      List.zipWith fittedSize ls (List.replicate ls.length 1) = ls := by
  induction ls with
  | nil => exact ⟨.nil, rfl⟩
  | cons l ls ih =>
      have hsize : fittedSize l 1 = l := by
        rw [fittedSize]
        split <;> simp_all
      refine ⟨.cons (fits_one_right l) ih.1, ?_⟩
      rw [List.length_cons, List.replicate_succ, List.zipWith_cons_cons, hsize, ih.2]

theorem broadcastReversed_eq_some_iff {out : List Nat} :
    broadcastReversed ls rs = some out ↔
      List.Forall₂ Fits (padBack (max ls.length rs.length) ls) (padBack (max ls.length rs.length) rs) ∧
      List.zipWith fittedSize (padBack (max ls.length rs.length) ls)
        (padBack (max ls.length rs.length) rs) = out := by
  induction ls generalizing rs out with
  | nil =>
      obtain ⟨hfits, hsizes⟩ := broadcast_ones_left rs
      simp [broadcastReversed, hfits, hsizes]
  | cons l ls ih =>
      cases rs with
      | nil =>
          obtain ⟨hfits, hsizes⟩ := broadcast_ones_right (l :: ls)
          rw [broadcastReversed, Option.some.injEq, List.length_nil, Nat.max_zero, padBack_length,
            padBack_nil, hsizes, eq_comm]
          · exact (and_iff_right hfits).symm
          · simp
      | cons r rs =>
          rw [List.length_cons, List.length_cons, Nat.succ_max_succ, padBack_cons, padBack_cons,
            List.forall₂_cons, List.zipWith_cons_cons, broadcastReversed]
          constructor
          · intro h
            obtain ⟨extent, hextent, h⟩ := Option.bind_eq_some_iff.1 h
            obtain ⟨rest, hrest, h⟩ := Option.bind_eq_some_iff.1 h
            obtain ⟨hfits, rfl⟩ := broadcastExtent_eq_some_iff.1 hextent
            obtain ⟨hall, rfl⟩ := ih.1 hrest
            exact ⟨⟨hfits, hall⟩, Option.some.inj h⟩
          · rintro ⟨⟨hfits, hall⟩, rfl⟩
            refine Option.bind_eq_some_iff.2 ⟨_, broadcastExtent_eq_some_iff.2 ⟨hfits, rfl⟩, ?_⟩
            exact Option.bind_eq_some_iff.2 ⟨_, ih.2 ⟨hall, rfl⟩, rfl⟩

end Reversed

variable {lhs rhs sizes coords : List Nat}

theorem length_padTo {rank : Nat} (h : sizes.length ≤ rank) : (padTo rank sizes).length = rank := by
  rw [padTo, List.length_append, List.length_replicate, Nat.sub_add_cancel h]

/-- Two size lists have common sizes exactly when they broadcast. -/
theorem broadcastSizes_eq_some_iff :
    broadcastSizes lhs rhs = some sizes ↔ Broadcasts lhs rhs ∧ commonSizes lhs rhs = sizes := by
  have hlength : (padTo (max lhs.length rhs.length) lhs).length =
      (padTo (max lhs.length rhs.length) rhs).length := by
    rw [length_padTo (Nat.le_max_left _ _), length_padTo (Nat.le_max_right _ _)]
  have hfits : Broadcasts lhs rhs ↔ List.Forall₂ Fits
      (padBack (max lhs.reverse.length rhs.reverse.length) lhs.reverse)
      (padBack (max lhs.reverse.length rhs.reverse.length) rhs.reverse) := by
    rw [List.length_reverse, List.length_reverse, ← reverse_padTo, ← reverse_padTo,
      List.forall₂_reverse_iff, Broadcasts]
  have hsizes : (commonSizes lhs rhs).reverse = List.zipWith fittedSize
      (padBack (max lhs.reverse.length rhs.reverse.length) lhs.reverse)
      (padBack (max lhs.reverse.length rhs.reverse.length) rhs.reverse) := by
    rw [List.length_reverse, List.length_reverse, ← reverse_padTo, ← reverse_padTo,
      ← List.reverse_zipWith hlength, commonSizes]
  constructor
  · intro h
    obtain ⟨out, hout, rfl⟩ := Option.map_eq_some_iff.1 h
    obtain ⟨hall, rfl⟩ := broadcastReversed_eq_some_iff.1 hout
    exact ⟨hfits.2 hall, by rw [← hsizes, List.reverse_reverse]⟩
  · rintro ⟨hall, rfl⟩
    refine Option.map_eq_some_iff.2 ⟨_, broadcastReversed_eq_some_iff.2 ⟨hfits.1 hall, rfl⟩, ?_⟩
    rw [← hsizes, List.reverse_reverse]

/-- The first sizes broadcast to the second ones. -/
def SpreadsTo (sizes target : List Nat) : Prop :=
  Broadcasts sizes target ∧ commonSizes sizes target = target

instance (sizes target : List Nat) : Decidable (SpreadsTo sizes target) :=
  inferInstanceAs (Decidable (_ ∧ _))

theorem SpreadsTo.broadcastSizes_eq {target : List Nat} (h : SpreadsTo sizes target) :
    broadcastSizes sizes target = some target :=
  broadcastSizes_eq_some_iff.2 h

theorem sourceCoordinates_eq_project (sizes coords : List Nat) :
    sourceCoordinates sizes coords = project coords sizes := by
  have hdrop : (padTo coords.length sizes).drop (coords.length - sizes.length) = sizes := by
    rw [padTo]
    exact List.drop_left' List.length_replicate
  rw [sourceCoordinates, List.drop_zipWith, hdrop, List.zipWith_comm, project]

/-- An operand is read at its own coordinates: its offset is what a word keeps of their number. -/
theorem sourceOffset_eq_ok (h : broadcastSizes lhs rhs = some sizes) (hcoords : InRange coords sizes) :
    InRange (sourceCoordinates lhs coords) lhs ∧
      (sourceOffset coords lhs : Outcome EngineError Nat) =
        .ok (wrap (number (sourceCoordinates lhs coords) (places lhs))) := by
  obtain ⟨hlength, hrange⟩ := inRange_project h hcoords
  rw [sourceCoordinates_eq_project, ← offset_strides]
  exact ⟨hrange, if_neg (Nat.not_lt.2 hlength)⟩

end TensorLowering.Indexing
