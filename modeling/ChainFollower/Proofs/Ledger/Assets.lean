import ChainFollower.Ledger.Asset
import ChainFollower.Proofs.Text.Separators

/-!
# Asset ids and their parts

An id is put together again from its policy and its name, unless it is dangling: text without a dot
and one final dot.  Such an id has the parts of its policy alone, and comes after it.

Main statements: `AssetId.ofParts_eq` and `AssetId.eq_of_parts`.
-/

namespace ChainFollower.AssetId

/-! ## Taking ids apart -/

theorem splitChars_dotted {policy : List Char} (name : List Char) (hne : policy ≠ [])
    (hdot : '.' ∉ policy) : splitChars (policy ++ '.' :: name) = (policy, name) := by
  unfold splitChars
  rw [takeWhile_separated name hdot, dropWhile_separated name hdot]
  obtain ⟨c, policy, rfl⟩ := List.exists_cons_of_ne_nil hne
  rfl

/-- Policy and name of an id: the whole of it, or what a dot separates. -/
theorem splitChars_cases (cs : List Char) : splitChars cs = (cs, []) ∨
    ∃ policy name, policy ≠ [] ∧ '.' ∉ policy ∧ cs = policy ++ '.' :: name := by
  have hjoin := List.takeWhile_append_dropWhile (p := fun c : Char => c != '.') (l := cs)
  -- The part before the split holds no dot, and what follows it starts with one or is empty.
  have htake : '.' ∉ cs.takeWhile (· != '.') := by
    intro hmem
    have hall := List.all_eq_true.1 (List.all_takeWhile (p := fun c : Char => c != '.')) _ hmem
    exact bne_iff_ne.1 hall rfl
  have hhead := List.head?_dropWhile_not (fun c : Char => c != '.') cs
  unfold splitChars
  generalize cs.takeWhile (· != '.') = policy at *
  generalize cs.dropWhile (· != '.') = rest at *
  -- A dot in first place starts a name without a policy, so the text is not split there.
  cases policy with
  | nil => exact .inl rfl
  | cons c policy =>
    cases rest with
    | nil => exact .inl rfl
    | cons d name =>
      have hd : d = '.' := by simpa using hhead
      exact .inr ⟨c :: policy, name, List.cons_ne_nil _ _, htake, hd ▸ hjoin.symm⟩

/-- The characters of a policy, a dot and a name. -/
theorem toList_dotted (policy name : String) :
    (policy ++ "." ++ name).toList = policy.toList ++ '.' :: name.toList :=
  toList_separated rfl policy name

/-- A policy without a dot is told from the name that is put behind it. -/
theorem parts_dotted {policy : String} (name : String) (hne : policy ≠ "")
    (hdot : '.' ∉ policy.toList) :
    AssetId.policy ⟨policy ++ "." ++ name⟩ = policy ∧ AssetId.name ⟨policy ++ "." ++ name⟩ = name := by
  have hsplit := splitChars_dotted name.toList (fun h => hne (String.toList_eq_nil_iff.1 h)) hdot
  unfold AssetId.policy AssetId.name
  rw [toList_dotted, hsplit]
  exact ⟨String.ofList_toList, String.ofList_toList⟩

/-- An id is its policy, or what a dot between policy and name makes of them. -/
theorem parts_cases (a : AssetId) : a.policy = a.text ∧ a.name = "" ∨
    a.policy ≠ "" ∧ '.' ∉ a.policy.toList ∧ a.text = a.policy ++ "." ++ a.name := by
  rcases splitChars_cases a.text.toList with hsplit | ⟨policy, name, hne, hdot, hchars⟩
  · left
    unfold AssetId.policy AssetId.name
    rw [hsplit]
    exact ⟨String.ofList_toList, rfl⟩
  · right
    -- The characters were split at the first dot; the texts are joined at the same place.
    have htext : a.text = String.ofList policy ++ "." ++ String.ofList name := by
      rw [← String.toList_inj, hchars, toList_dotted, String.toList_ofList, String.toList_ofList]
    have hpolicy : String.ofList policy ≠ "" := by
      intro h
      apply hne
      rw [← String.toList_ofList (l := policy), h]
      rfl
    have hchar : '.' ∉ (String.ofList policy).toList := by rwa [String.toList_ofList]
    obtain ⟨hp, hn⟩ := parts_dotted (String.ofList name) hpolicy hchar
    obtain ⟨text⟩ := a
    subst htext
    rw [hp, hn]
    exact ⟨hpolicy, hchar, rfl⟩

/-! ## Putting ids together -/

/-- Text without a dot, and one final dot. -/
def Dangling (a : AssetId) : Prop := ∃ p : String, p ≠ "" ∧ '.' ∉ p.toList ∧ a.text = p ++ "."

theorem Dangling.parts {a : AssetId} (h : a.Dangling) :
    a.policy ≠ "" ∧ a.text = a.policy ++ "." ∧ a.name = "" := by
  obtain ⟨p, hne, hdot, htext⟩ := h
  obtain ⟨text⟩ := a
  obtain rfl : text = p ++ "." ++ "" := htext.trans String.append_empty.symm
  obtain ⟨hp, hn⟩ := parts_dotted "" hne hdot
  rw [hp, hn]
  exact ⟨hne, String.append_empty, rfl⟩

/-- Every id but a dangling one is put together again from its parts. -/
theorem ofParts_eq {a : AssetId} (h : ¬ a.Dangling) : ofParts a.policy a.name = a := by
  obtain ⟨text⟩ := a
  unfold ofParts
  rcases parts_cases ⟨text⟩ with ⟨hpolicy, hname⟩ | ⟨hne, hdot, htext⟩
  · rw [hname, hpolicy]
    rfl
  · by_cases hname : AssetId.name ⟨text⟩ = ""
    · -- A dot with no name behind it makes the id dangling.
      refine absurd ⟨_, hne, hdot, ?_⟩ h
      rw [hname, String.append_empty] at htext
      exact htext
    · have hfull : (AssetId.name ⟨text⟩).isEmpty = false := by simpa using hname
      rw [hfull, if_neg Bool.false_ne_true]
      exact congrArg AssetId.mk htext.symm

/-- Two ids with the same parts are the same, unless one of them is dangling. -/
theorem eq_of_parts {a b : AssetId} (ha : ¬ a.Dangling) (hb : ¬ b.Dangling)
    (hpolicy : a.policy = b.policy) (hname : a.name = b.name) : a = b := by
  rw [← ofParts_eq ha, ← ofParts_eq hb, hpolicy, hname]

/-- The other id with the parts of a dangling one is its policy alone. -/
theorem Dangling.eq_policy {a b : AssetId} (ha : a.Dangling) (hb : ¬ b.Dangling)
    (hpolicy : a.policy = b.policy) (hname : a.name = b.name) : b = ⟨a.policy⟩ := by
  rw [← ofParts_eq hb, ← hpolicy, ← hname, ha.parts.2.2]
  rfl

/-- What is put together from the parts of an id has these parts again, and no dot at its end that
separates nothing. -/
theorem parts_ofParts (a : AssetId) : ¬ (ofParts a.policy a.name).Dangling ∧
    (ofParts a.policy a.name).policy = a.policy ∧ (ofParts a.policy a.name).name = a.name := by
  by_cases ha : a.Dangling
  · -- The final dot is gone, and no other one is there.
    obtain ⟨p, -, hdot, htext⟩ := id ha
    have hpolicy : a.policy = p := by
      have hparts := ha.parts.2.1
      rw [htext] at hparts
      exact (String.append_left_inj ".").1 hparts.symm
    have hwhole : ofParts a.policy a.name = ⟨p⟩ := by
      rw [ha.parts.2.2, hpolicy]
      rfl
    have hclean : ¬ AssetId.Dangling ⟨p⟩ := by
      rintro ⟨q, -, -, heq⟩
      apply hdot
      rw [show p = q ++ "." from heq, String.toList_append]
      exact List.mem_append_right _ (List.mem_singleton.2 rfl)
    have hparts := parts_cases ⟨p⟩
    rw [hwhole, ha.parts.2.2, hpolicy]
    refine ⟨hclean, ?_⟩
    rcases hparts with h | ⟨-, -, h⟩
    · exact h
    · -- A dot would have to stand in the text.
      refine absurd ?_ hdot
      rw [show p = _ from h, String.toList_append, String.toList_append]
      exact List.mem_append_left _ (List.mem_append_right _ (List.mem_singleton.2 rfl))
  · rw [ofParts_eq ha]
    exact ⟨ha, rfl, rfl⟩

/-- A dangling id comes after its policy. -/
theorem Dangling.policy_lt {a : AssetId} (h : a.Dangling) : a.policy < a.text := by
  have hchars : ∀ cs : List Char, cs < cs ++ ['.'] := by
    intro cs
    induction cs with
    | nil => exact List.Lex.nil
    | cons c cs ih => exact List.Lex.cons ih
  rw [h.parts.2.1, String.lt_iff, String.toList_append]
  exact hchars _

end ChainFollower.AssetId
