import QueryScribe.Proofs.Value.Decoded

/-!
# Encoding undoes decoding

A value that was read is read again from either of its texts, whichever kind it is
and however deep its parts are nested, as long as the reader opens so many containers.
What comes back is the quiet form of the value: equal to it in every field, kind
and number, except that a decimal NaN has no sign and no signalling bit, and with the same
texts.
-/

namespace QueryScribe.Value

open QueryScribe.Json

/-- **The text of a decoded value on one line.** -/
theorem Decoded.ofText_toText {v : Value} (h : v.Decoded) (hdepth : v.toJson.depth ≤ 127) :
    ofText v.toText = .ok v.quiet := by
  rw [ofText, toText, String.toList_ofList, read, compact]
  exact readWith_compact (bounded_toJson v) h.fold hdepth

/-- **The text of a decoded value over several lines.** -/
theorem Decoded.ofText_toPrettyText {v : Value} (h : v.Decoded) (hdepth : v.toJson.depth ≤ 127) :
    ofText v.toPrettyText = .ok v.quiet := by
  rw [ofText, toPrettyText, String.toList_ofList, read, pretty]
  exact readWith_pretty (bounded_toJson v) h.fold hdepth

/-- **A value that was read is read again from both of its texts**, and has the same texts then. -/
theorem encoding_undoes_decoding {text : String} {v : Value} (h : ofText text = .ok v)
    (hdepth : v.toJson.depth ≤ 127) :
    ofText v.toText = .ok v.quiet ∧ ofText v.toPrettyText = .ok v.quiet
      ∧ v.quiet.toText = v.toText ∧ v.quiet.toPrettyText = v.toPrettyText := by
  have hdecoded := decoded_of_ofText h
  exact ⟨hdecoded.ofText_toText hdepth, hdecoded.ofText_toPrettyText hdepth, toText_quiet v,
    toPrettyText_quiet v⟩

/-- A signalling NaN comes back as a quiet one; the number beside it is not changed. -/
theorem encoding_undoes_decoding_nan :
    ofText "[\x7b\"$numberDecimal\":\"-sNaN\"\x7d,7]"
        = .ok (.array [.decimal128 (.nan true true), .int32 7])
      ∧ (Value.array [.decimal128 (.nan true true), .int32 7]).toJson.depth ≤ 127
      ∧ ofText (Value.array [.decimal128 (.nan true true), .int32 7]).toText
        = .ok (.array [.decimal128 (.nan false false), .int32 7]) := by
  have hread : ofText "[\x7b\"$numberDecimal\":\"-sNaN\"\x7d,7]"
      = .ok (.array [.decimal128 (.nan true true), .int32 7]) := by
    have htext : "[\x7b\"$numberDecimal\":\"-sNaN\"\x7d,7]".toList
        = (Json.array [single "$numberDecimal" (.string "-sNaN"), ofInt 7]).compact := by decide
    rw [ofText, htext]
    exact readWith_compact ⟨⟨trivial, trivial⟩, ⟨by decide, by decide⟩, trivial⟩ rfl (by decide)
  have hdepth : (Value.array [.decimal128 (.nan true true), .int32 7]).toJson.depth ≤ 127 := by
    decide
  exact ⟨hread, hdepth, (encoding_undoes_decoding hread hdepth).1⟩

end QueryScribe.Value
