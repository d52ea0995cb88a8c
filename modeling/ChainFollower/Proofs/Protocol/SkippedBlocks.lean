import ChainFollower.Proofs.Item.Skipping
import ChainFollower.Proofs.Protocol.Peeking

/-!
# Peeking skips blocks

A block is the value of the member `block` of a result, or of the body that an older node sends
below `RollForward`.  Peeking at the tip passes it over.  Any other value can stand in its place,
be it however deep, and whatever numbers and texts stand in it, and the tip that is seen is the
same; so is the lack of one, in a frame that is broken behind the block.

Main statement: `Peek.tip?_skips_block`.
-/

namespace ChainFollower.Peek

open Item (Apart)

/-- Where the block stands in a frame. -/
inductive BlockPath : List String → Prop
  | current : BlockPath ["result", "block"]
  | legacy : BlockPath ["result", "RollForward", "block"]

/-! ## Readers -/

section Readers

variable {i j : Item} {path : List String}

/-- What is no `null` is read by the reader of what may be. -/
theorem option_apart {α : Type} {read : Reader α} (h : Apart path i j) (hpath : path ≠ [])
    (hread : read .document i = read .document j) :
    Reader.option read .document i = Reader.option read .document j := by
  cases h with
  | here => exact absurd rfl hpath
  | inside => exact congrArg (Except.map some) hread

/-- Blocks of older nodes are passed over beside their tip. -/
theorem readHolder_apart (h : Apart ["block"] i j) :
    readHolder .document i = readHolder .document j :=
  Record.read_of_unknown rfl h

/-- A block that is a member of the result is passed over, and -/
theorem readResult_apart_current (h : Apart ["block"] i j) :
    readResult .document i = readResult .document j :=
  Record.read_of_unknown rfl h

/-- so is one in the body of a step forward. -/
theorem readResult_apart_legacy (h : Apart ["RollForward", "block"] i j) :
    readResult .document i = readResult .document j := by
  refine Record.read_of_field rfl (fun i j hij r r' halike => ?_) h
  -- Only one field leads to the block; the others are the same on both sides.
  have hforward := halike.getWith (f := "RollForward")
    (fun _ => option_apart hij (by simp) (readHolder_apart hij)) none
  have hother : ∀ {α : Type} {f : String} (read : Reader α) (absent : α), f ≠ "RollForward" →
      r.getWith f read absent = r'.getWith f read absent :=
    fun read absent hf => halike.getWith (fun heq => absurd heq hf) absent
  simp only [Record.getD, hforward]
  rw [hother _ _ (by decide), hother _ _ (by decide), hother _ _ (by decide),
    hother _ _ (by decide)]

/-- Wherever the block stands, the result is read the same, -/
theorem readResult_apart (hpath : BlockPath ("result" :: path)) (h : Apart path i j) :
    readResult .document i = readResult .document j := by
  cases hpath with
  | current => exact readResult_apart_current h
  | legacy => exact readResult_apart_legacy h

/-- and so is the frame. -/
theorem readFrame_apart (hpath : BlockPath path) (h : Apart path i j) :
    readFrame .document i = readFrame .document j := by
  -- Both places lie below the result.
  obtain ⟨rest, hrest, rfl⟩ : ∃ rest, rest ≠ [] ∧ path = "result" :: rest := by
    cases hpath <;> exact ⟨_, by simp, rfl⟩
  refine Record.read_of_field rfl (fun i j hij r r' halike => ?_) h
  have hresult := halike.getWith (f := "result")
    (fun _ => option_apart hij hrest (readResult_apart hpath hij)) none
  have herror : r.getWith "error" (Reader.option readError) none =
      r'.getWith "error" (Reader.option readError) none :=
    halike.getWith (fun heq => absurd heq (by decide)) none
  simp only [hresult, herror]

end Readers

/-! ## Frames -/

/-- Whatever stands for the block in a frame, the tip that is seen is the same.  The text before the
block leads to it, and the text behind it can be any that does not go on with a number, be the whole
a document or not.  In a document every block has such a place. -/
theorem tip?_skips_block {path : List String} (hpath : BlockPath path) :
    (∀ {p q s s' : Octets} {b b' : Doc}, Doc.Leads path p → Doc.Stops q → Doc.Spells b s →
      Doc.Spells b' s' → tip? (p ++ (s ++ q)) = tip? (p ++ (s' ++ q))) ∧
    ∀ {f : Octets} {d b : Doc}, Doc.Spells d f → Doc.Contains b path d →
      ∃ p s q, f = p ++ (s ++ q) ∧ Doc.Leads path p ∧ Doc.Spells b s ∧ Doc.Stops q := by
  have hlevels : path.length ≤ documentLevels := by cases hpath <;> decide
  refine ⟨fun {p q s s' b b'} hp hq hs hs' => ?_, fun hf hb => hf.exists_leads hb⟩
  by_cases hspells : ∃ d, Doc.Spells d (p ++ (s ++ q))
  · obtain ⟨d, hd⟩ := hspells
    obtain ⟨d', hd', hapart⟩ := hp.spells hs hs' hq hd
    rw [tip?_of_spells hd, tip?_of_spells hd',
      readFrame_apart hpath (hapart.item hs hs' hlevels)]
  · -- What is no document with one block is none with the other.
    have hspells' : ¬ ∃ d, Doc.Spells d (p ++ (s' ++ q)) := by
      rintro ⟨d', hd'⟩
      obtain ⟨d, hd, -⟩ := hp.spells hs' hs hq hd'
      exact hspells ⟨d, hd⟩
    rw [tip?_of_not_spells hspells, tip?_of_not_spells hspells']

/-- A block of an older node, and in its place a number out of range, a wide one and half a pair of
escapes: the tip behind it is seen all the same. -/
theorem tip?_skips_block_out_of_range :
    tip? (Octets.ofText "\x7b\"result\":\x7b\"RollForward\":\x7b\"block\":" ++
      (Octets.ofText "[1e400,18446744073709551616,\"\\ud800\"]" ++
        Octets.ofText ",\"tip\":\x7b\"slot\":4,\"hash\":\"b\",\"blockNo\":3\x7d\x7d\x7d\x7d")) =
      some ⟨4, "b", 3⟩ := by
  -- Each name opens an object, whose first member it is.
  have hopens : ∀ name : String, Doc.scanText (Octets.ofText name ++ [0x22]) =
      some (Octets.ofText name, []) → Literal.text? (Octets.ofText name) = some name →
      Doc.Opens name (0x7b :: 0x22 :: (Octets.ofText name ++ [0x22, 0x3a])) := by
    intro name hscan hname
    have hblanks : Doc.Blanks [] := List.forall_mem_nil _
    simpa using Doc.Opens.object (b := []) hblanks .none (c := []) hblanks
      (Doc.body_of_scanText hscan).1 hname (e := []) hblanks
  have hspells : ∀ s : Octets, (Doc.read s).2 = true → Doc.Spells (Doc.read s).1 s := fun s hs =>
    Doc.read_eq_iff.1 (Prod.ext rfl hs)
  have hleads := Doc.Leads.inside (hopens "result" (by decide +kernel) (by decide +kernel))
    (.inside (hopens "RollForward" (by decide +kernel) (by decide +kernel))
      (.inside (hopens "block" (by decide +kernel) (by decide +kernel)) .here))
  have htail :
      Octets.ofText ",\"tip\":\x7b\"slot\":4,\"hash\":\"b\",\"blockNo\":3\x7d\x7d\x7d\x7d" =
        0x2c :: Octets.ofText
          "\"tip\":\x7b\"slot\":4,\"hash\":\"b\",\"blockNo\":3\x7d\x7d\x7d\x7d" := by
    decide +kernel
  -- A comma comes behind the block, so no number goes on there.
  have hstops : Doc.Stops (Octets.ofText
      ",\"tip\":\x7b\"slot\":4,\"hash\":\"b\",\"blockNo\":3\x7d\x7d\x7d\x7d") :=
    htail ▸ Doc.avoids_cons (by decide)
  have hprefix : Octets.ofText "\x7b\"result\":\x7b\"RollForward\":\x7b\"block\":" =
      0x7b :: 0x22 :: (Octets.ofText "result" ++ [0x22, 0x3a]) ++
        (0x7b :: 0x22 :: (Octets.ofText "RollForward" ++ [0x22, 0x3a]) ++
          (0x7b :: 0x22 :: (Octets.ofText "block" ++ [0x22, 0x3a]) ++ [])) := by
    decide +kernel
  rw [← hprefix] at hleads
  rw [(tip?_skips_block .legacy).1 hleads hstops (hspells _ (by decide +kernel))
    (hspells (Octets.ofText "\x7b\"alonzo\":\x7b\x7d\x7d") (by decide +kernel))]
  decide +kernel

end ChainFollower.Peek
