/-!
Classes of characters given by ranges of code points.
-/
namespace PolicyEngine.Text

/-- Whether a character lies in one of the inclusive ranges. -/
def inRanges (ranges : List (Nat × Nat)) (c : Char) : Bool :=
  ranges.any fun (first, last) => first ≤ c.toNat && c.toNat ≤ last

end PolicyEngine.Text
