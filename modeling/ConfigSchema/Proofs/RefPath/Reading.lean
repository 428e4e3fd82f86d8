import ConfigSchema.Proofs.Address.Readable

/-!
Reading dotted texts. What is read is a list of segments, each of them neither empty nor with a
point, and such lists are read from their texts as they were written. Empty segments vanish wherever
they stand, so a text may be cut at any point and its parts read on their own. Main statement:
`RefPath.dottedText_laws`.
-/

namespace ConfigSchema.RefPath

theorem readable_iff {p : RefPath} : p.Readable ↔ ∀ s ∈ p.segments, s ≠ "" ∧ '.' ∉ s.toList :=
  forall₂_congr fun _ _ => isSegment_iff

/-- A text is read in two parts at any of its points. -/
theorem segments_parse_append (a b : String) :
    (parse (a ++ "." ++ b)).segments = (parse a).segments ++ (parse b).segments := by
  have hcut : (a ++ "." ++ b).toList = a.toList ++ '.' :: b.toList := by simp
  rw [parse, hcut, Text.splitAt_append_cons, List.filter_append, List.map_append]
  rfl

/-- Exactly the paths of segments that can be told apart read back from their text. Only such paths
are read at all, so a path that was read is the same when it is written and read again. The segments
of a text with a point are those before the point and those after it. -/
theorem dottedText_laws :
    (∀ p : RefPath, parse p.text = p ↔ ∀ s ∈ p.segments, s ≠ "" ∧ '.' ∉ s.toList) ∧
      (∀ text : String, (∀ s ∈ (parse text).segments, s ≠ "" ∧ '.' ∉ s.toList) ∧
        parse (parse text).text = parse text) ∧
      ∀ a b : String, (parse (a ++ "." ++ b)).segments = (parse a).segments ++ (parse b).segments := by
  refine ⟨fun p => ?_, fun text => ?_, segments_parse_append⟩
  · rw [parse_text_eq_iff, readable_iff]
  · have hread : (parse text).Readable := readable_parse text
    exact ⟨readable_iff.1 hread, parse_text hread⟩

/-- Points at the ends and points in a row leave nothing behind. -/
example : (parse ".a..b.").segments = ["a", "b"] := by decide

end ConfigSchema.RefPath
