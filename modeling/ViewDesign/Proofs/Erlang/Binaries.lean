import ViewDesign.Proofs.Erlang.Structure

/-!
# Binaries denote the bytes of their texts

A binary literal ends at the first `>>` that is no part of a string.  A text that is written as a
binary has all its quotes and backslashes escaped, so it ends where it was meant to, whatever
follows; and as other than ASCII texts are marked, the literal denotes the UTF-8 bytes of the text.

* `Mode.binaryEnd?`      scans up to the end of a binary;
* `readBinary?`          a binary literal at the start of a text;
* `binaryEnd?_binary`    it ends where the text that was written ends;
* `binary_denotes`       and denotes the bytes of the text.
-/

namespace ViewDesign.Erlang

/-- Scans up to the mark that closes a binary: the tokens, and the text after them. -/
def Mode.binaryEnd? : Mode → List Char → Option (List Token × List Char)
  | _, [] => none
  | m, c :: cs => do
    let (out, m) ← m.step c
    if .mark .closeBinary ∈ out then return (out, cs)
    else do
      let (more, rest) ← binaryEnd? m cs
      return (out ++ more, rest)

/-- A binary literal at the start of a text: the bytes that it denotes, and the text after it. -/
def readBinary? (cs : List Char) : Option (List UInt8 × List Char) := do
  let (ts, rest) ← Mode.ready.binaryEnd? cs
  match Parser.primary 1 ts with
  | some (.binary bytes, []) => some (bytes, rest)
  | _ => none

namespace Mode

theorem binaryEnd?_append {m m' : Mode} {as bs : List Char} {out : List Token}
    (h : m.run as = some (out, m')) (hout : .mark .closeBinary ∉ out) :
    m.binaryEnd? (as ++ bs) = (m'.binaryEnd? bs).map fun r => (out ++ r.1, r.2) := by
  induction as generalizing m out with
  | nil =>
    cases h
    simp
  | cons c as ih =>
    simp only [run, Option.bind_eq_bind, Option.bind_eq_some_iff, Option.pure_def] at h
    obtain ⟨⟨first, n⟩, hc, ⟨more, n'⟩, hmore, hr⟩ := h
    cases hr
    rw [List.mem_append, not_or] at hout
    have hrest := ih hmore hout.2
    simp only [List.cons_append, binaryEnd?, hc, Option.bind_eq_bind, Option.bind_some, hout.1,
      if_false, hrest, Option.pure_def]
    cases n'.binaryEnd? bs <;> simp

end Mode

end ViewDesign.Erlang

namespace ViewDesign.MapFunction.Erlang

open ViewDesign.Erlang

/-- a binary ends where the text that was written ends, whatever follows -/
theorem binaryEnd?_binary (cs t : List Char) :
    Mode.ready.binaryEnd? (binary cs ++ t) = some (binaryTokens cs, t) := by
  have hopen : Token.mark .closeBinary ∉ .mark .openBinary :: .text cs :: markTokens cs := by
    unfold markTokens
    by_cases h : isAscii cs = true <;> simp [h]
  have hclose : Mode.greater.binaryEnd? ('>' :: t) = some ([.mark .closeBinary], t) := by
    simp [Mode.binaryEnd?, Mode.step]
  rw [binary_eq, List.append_assoc, Mode.binaryEnd?_append (run_unclosed cs) hopen,
    List.singleton_append, hclose]
  rfl

/-- **Binaries.** A text that is written as a binary is read as one, whatever follows: the whole of
it is read and nothing beyond, and it denotes the UTF-8 bytes of the text.  Inside it two passes, one
over the backslashes and one over the quotes, make one pass that escapes both. -/
theorem binary_denotes (s : String) (t : List Char) :
    readBinary? (binary s.toList ++ t) = some (utf8 s, t) ∧
      guardChar '"' (guardChar '\\' s.toList) = s.toList.flatMap escapeChar := by
  refine ⟨?_, escape_eq_flatMap s.toList⟩
  have hbytes := primary_binary 0 s []
  rw [List.append_nil, Nat.zero_add] at hbytes
  simp [readBinary?, binaryEnd?_binary, hbytes]

example : readBinary? (binary "a\\\"é".toList ++ ">>\"".toList) =
    some ([97, 92, 34, 195, 169], ['>', '>', '"']) := by
  decide +kernel

end ViewDesign.MapFunction.Erlang
