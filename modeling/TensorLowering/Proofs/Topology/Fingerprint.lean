import TensorLowering.Proofs.Primitive.Encoding
import TensorLowering.Proofs.Topology.Index
import TensorLowering.Topology.Encoding

/-!
# What a fingerprint can confuse

A fingerprint is a hash of the bytes of a topology. The bytes leave nothing out and can be read in one
way, so that two topologies under one fingerprint are a collision of the hash.

## Main statements

* `Topology.encode_injective`: topologies with the same bytes have the same primitives.
* `Topology.encode_eq_iff_and_collision`: different topologies have different bytes, which collide if
  the fingerprints are the same.
-/

namespace TensorLowering.Topology

/-- A topology whose lengths and numbers fit eight bytes. -/
def Fits (t : Topology) : Prop := ListFits Primitive.Fits t.primitives

instance : DecidablePred Fits := fun t =>
  inferInstanceAs (Decidable (ListFits Primitive.Fits t.primitives))

theorem encode_injective {t t' : Topology} (ht : t.Fits) (ht' : t'.Fits)
    (h : t.encode = t'.encode) : t.primitives = t'.primitives := by
  have hlists := Encoding.prefixFree_list Encoding.prefixFree_primitive ht ht'
  exact (hlists (congrArg (· ++ []) h)).1

/-- Bytes tell topologies apart, and only a collision of the hash gives two one fingerprint. -/
theorem encode_eq_iff_and_collision {t t' : Topology} (ht : t.Fits) (ht' : t'.Fits) :
    (t.encode = t'.encode ↔ t.primitives = t'.primitives) ∧
      (t ≠ t' → t.fingerprint = t'.fingerprint →
        t.encode ≠ t'.encode ∧ fnv1a t.encode = fnv1a t'.encode) := by
  refine ⟨⟨encode_injective ht ht', fun h => by rw [encode, encode, h]⟩, fun hne hhash => ?_⟩
  have hbytes : t.encode ≠ t'.encode := fun h =>
    hne (eq_of_primitives_eq (encode_injective ht ht' h))
  exact ⟨hbytes, hhash⟩

/-- A topology of one primitive with the given texts. -/
def activation (id name type : String) : Topology :=
  ofPrimitives [⟨id, .activation .erf, [⟨"x", 0⟩], name, type⟩] (List.pairwise_singleton _ _)

/-- Where the name of an origin ends and its type begins can be read off the bytes. -/
theorem encode_activation_ne :
    (activation "e" "ab" "c").Fits ∧ (activation "e" "a" "bc").Fits ∧
      (activation "e" "ab" "c").encode ≠ (activation "e" "a" "bc").encode := by
  have hab : (activation "e" "ab" "c").Fits := by decide
  have ha : (activation "e" "a" "bc").Fits := by decide
  refine ⟨hab, ha, fun h => ?_⟩
  exact absurd ((encode_eq_iff_and_collision hab ha).1.1 h) (by decide)

end TensorLowering.Topology
