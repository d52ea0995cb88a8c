import ChainFollower.Proofs.Ledger.DatumForms
import ChainFollower.Proofs.Ledger.Shapes

/-!
# What the id of an asset tells

An id tells its policy and its name, and is told by them, but for one final dot that separates
nothing.  Whether it belongs to a policy is looked up at its beginning, without regard to the dot:
that finds the policy if it is a full one, but where it is longer or shorter, a text is found that
stops inside of it or runs on into the name.

Main statements: `AssetId.hasPolicy_by_parts`, `AssetId.rebuilt_from_parts`.
-/

namespace ChainFollower.AssetId

/-! ## Beginnings of ids -/

/-- The text stops inside of the policy of an id. -/
def Cuts (a : AssetId) (p : String) : Prop := ∃ rest, rest ≠ "" ∧ a.policy = p ++ rest

/-- The text is the policy of an id, the dot, and the name or the beginning of it. -/
def Overruns (a : AssetId) (p : String) : Prop :=
  ∃ cut rest, a.text = a.policy ++ "." ++ a.name ∧ a.name = cut ++ rest ∧
    p = a.policy ++ "." ++ cut

variable {a : AssetId} {p : String}

theorem hasPolicy_eq_true_iff :
    a.hasPolicy p = true ↔ p.utf8ByteSize = policyLength ∧ ∃ rest, a.text = p ++ rest := by
  rw [hasPolicy, Bool.and_eq_true, beq_iff_eq, List.isPrefixOf_iff_prefix]
  refine and_congr_right fun _ => ⟨?_, ?_⟩
  · rintro ⟨rest, hrest⟩
    refine ⟨String.ofList rest, ?_⟩
    rw [← String.toList_inj, String.toList_append, String.toList_ofList, hrest]
  · rintro ⟨rest, hrest⟩
    exact ⟨rest.toList, by rw [hrest, String.toList_append]⟩

/-- An id begins with its policy. -/
theorem exists_text_eq_policy_append (a : AssetId) : ∃ rest, a.text = a.policy ++ rest := by
  rcases parts_cases a with ⟨hpolicy, -⟩ | ⟨-, -, htext⟩
  · exact ⟨"", by rw [hpolicy, String.append_empty]⟩
  · exact ⟨"." ++ a.name, by rw [← String.append_assoc, htext.symm]⟩

/-- What an id of policy and name begins with ends inside of the policy, or behind the dot. -/
theorem begins_dotted (htext : a.text = a.policy ++ "." ++ a.name) {rest : String}
    (hrest : a.text = p ++ rest) : p = a.policy ∨ a.Cuts p ∨ a.Overruns p := by
  have hchars : a.policy.toList ++ '.' :: a.name.toList = p.toList ++ rest.toList := by
    rw [← toList_dotted, ← htext, hrest, String.toList_append]
  -- Either the text goes on behind the policy, or the policy behind the text.
  rcases List.append_eq_append_iff.1 hchars with ⟨beyond, hp, hbeyond⟩ | ⟨beyond, hpolicy, -⟩
  · rcases List.cons_eq_append_iff.1 hbeyond with ⟨rfl, -⟩ | ⟨cut, rfl, hname⟩
    · exact .inl (String.toList_inj.1 (hp.trans (List.append_nil _)))
    · refine .inr (.inr ⟨String.ofList cut, rest, htext, ?_, ?_⟩)
      · rw [← String.toList_inj, String.toList_append, String.toList_ofList, hname]
      · rw [← String.toList_inj, hp, toList_dotted, String.toList_ofList]
  · by_cases hbeyond : beyond = []
    · left
      rw [← String.toList_inj, hpolicy, hbeyond, List.append_nil]
    · refine .inr (.inl ⟨String.ofList beyond, ?_, ?_⟩)
      · rwa [ne_eq, ← String.toList_eq_nil_iff, String.toList_ofList]
      · rw [← String.toList_inj, hpolicy, String.toList_append, String.toList_ofList]

/-- An id begins with its policy, with what stops inside of it, and with what runs on behind it, and
with nothing else. -/
theorem begins_iff : (∃ rest, a.text = p ++ rest) ↔ p = a.policy ∨ a.Cuts p ∨ a.Overruns p := by
  constructor
  -- Without a name part, the prefix is all of the policy or stops inside it.
  · rintro ⟨rest, hrest⟩
    rcases parts_cases a with ⟨hpolicy, -⟩ | ⟨-, -, htext⟩
    · by_cases hempty : rest = ""
      · left
        rw [hpolicy, hrest, hempty, String.append_empty]
      · exact .inr (.inl ⟨rest, hempty, hpolicy.trans hrest⟩)
    · exact begins_dotted htext hrest
  -- Each of the three forms is completed by what remains of the text.
  · rintro (rfl | ⟨rest, -, hpolicy⟩ | ⟨cut, rest, htext, hname, rfl⟩)
    · exact exists_text_eq_policy_append a
    · obtain ⟨more, htext⟩ := exists_text_eq_policy_append a
      exact ⟨rest ++ more, by rw [htext, hpolicy, String.append_assoc]⟩
    · refine ⟨rest, htext.trans ?_⟩
      rw [hname, ← String.append_assoc]

theorem Cuts.utf8ByteSize_lt (h : a.Cuts p) : p.utf8ByteSize < a.policy.utf8ByteSize := by
  obtain ⟨rest, hrest, hpolicy⟩ := h
  have hpos : rest.utf8ByteSize ≠ 0 := mt String.utf8ByteSize_eq_zero_iff.1 hrest
  rw [hpolicy, String.utf8ByteSize_append]
  omega

theorem Overruns.lt_utf8ByteSize (h : a.Overruns p) : a.policy.utf8ByteSize < p.utf8ByteSize := by
  obtain ⟨cut, rest, -, -, rfl⟩ := h
  have hdot : ".".utf8ByteSize = 1 := rfl
  rw [String.utf8ByteSize_append, String.utf8ByteSize_append, hdot]
  omega

/-- A text of the length of a policy id is found in an id exactly if it is the policy, or stops
inside of a longer policy, or runs on behind a shorter one.  So only its policy is found in an id
whose policy has that length. -/
theorem hasPolicy_by_parts (a : AssetId) :
    (∀ p, a.hasPolicy p = true ↔
      p.utf8ByteSize = policyLength ∧ (p = a.policy ∨ a.Cuts p ∨ a.Overruns p)) ∧
    (a.policy.utf8ByteSize = policyLength →
      ∀ p, a.hasPolicy p = true ↔ p.utf8ByteSize = policyLength ∧ p = a.policy) := by
  have hparts : ∀ p, a.hasPolicy p = true ↔
      p.utf8ByteSize = policyLength ∧ (p = a.policy ∨ a.Cuts p ∨ a.Overruns p) := fun p =>
    hasPolicy_eq_true_iff.trans (and_congr_right fun _ => begins_iff)
  refine ⟨hparts, fun hpolicy p => (hparts p).trans (and_congr_right fun hp => ?_)⟩
  -- What is cut off is shorter than the policy, and what runs on is longer.
  refine or_iff_left ?_
  rintro (hcuts | hover)
  · have hlt := hcuts.utf8ByteSize_lt
    omega
  · have hlt := hover.lt_utf8ByteSize
    omega

/-- An id of a full policy and a name, and the policy that is found in it. -/
theorem hasPolicy_by_parts_full :
    (policy ⟨"29d222ce763455e3d7a09a665ce554f00ac89d2e99a1a83d267170c6.4d494e"⟩).utf8ByteSize =
      policyLength ∧
    hasPolicy ⟨"29d222ce763455e3d7a09a665ce554f00ac89d2e99a1a83d267170c6.4d494e"⟩
      "29d222ce763455e3d7a09a665ce554f00ac89d2e99a1a83d267170c6" = true := by
  have hfull : (policy
      ⟨"29d222ce763455e3d7a09a665ce554f00ac89d2e99a1a83d267170c6.4d494e"⟩).utf8ByteSize =
        policyLength := by
    decide +kernel
  exact ⟨hfull, ((hasPolicy_by_parts _).2 hfull _).2 (by decide +kernel)⟩

/-- Of an id without a dot the whole text is the policy, but the first part of it is found. -/
theorem hasPolicy_of_longer_policy :
    ¬ (hasPolicy ⟨"29d222ce763455e3d7a09a665ce554f00ac89d2e99a1a83d267170c6ff"⟩
        "29d222ce763455e3d7a09a665ce554f00ac89d2e99a1a83d267170c6" = true ↔
      "29d222ce763455e3d7a09a665ce554f00ac89d2e99a1a83d267170c6".utf8ByteSize = policyLength ∧
        "29d222ce763455e3d7a09a665ce554f00ac89d2e99a1a83d267170c6" =
          policy ⟨"29d222ce763455e3d7a09a665ce554f00ac89d2e99a1a83d267170c6ff"⟩) := by
  decide +kernel

/-! ## Names -/

/-- In a text of hexadecimal digits there is no dot. -/
theorem dot_notMem_of_decode? {cs : List Char} {bs : Octets} (h : Hex.decode? cs = some bs) :
    '.' ∉ cs := fun hdot => absurd ((Hex.digits_of_decode? h).2 '.' hdot) (by decide)

theorem nameText?_eq_some_iff {t : String} :
    a.nameText? = some t ↔ a.name ≠ "" ∧ Hex.decode? a.name.toList = some (Octets.ofText t) := by
  rw [nameText?]
  by_cases hempty : a.name = ""
  · simp [hempty]
  · rw [if_neg (by simpa using hempty), Option.bind_eq_some_iff]
    simp [hempty, Octets.text?_eq_some_iff]

theorem ofText_ne_nil {t : String} (ht : t ≠ "") : Octets.ofText t ≠ [] := by
  intro hnil
  have htext : Octets.text? (Octets.ofText t) = Octets.text? (Octets.ofText "") :=
    congrArg Octets.text? hnil
  rw [Octets.text?_ofText, Octets.text?_ofText] at htext
  exact ht (Option.some.inj htext)

/-- The text of a name that is written in digits is told exactly if the policy before it can be told
from it. -/
theorem nameText?_ofParts_iff {digits t : String}
    (hdigits : Hex.decode? digits.toList = some (Octets.ofText t)) (ht : t ≠ "") :
    (ofParts p digits).nameText? = some t ↔ IsPolicy p := by
  have hne : digits ≠ "" := by
    rintro rfl
    exact ofText_ne_nil ht (Option.some.inj hdigits).symm
  have hparts : ofParts p digits = ⟨p ++ "." ++ digits⟩ := if_neg (by simpa using hne)
  rw [nameText?_eq_some_iff]
  constructor
  · rintro ⟨hname, hread⟩
    rcases parts_cases (ofParts p digits) with ⟨-, hnone⟩ | ⟨hpolicy, hdot, htext⟩
    · exact absurd hnone hname
    · -- The id's policy has no dot, nor have digits, so both ways split the id at the same one.
      have hchars := congrArg (fun id : AssetId => id.text.toList) hparts
      change (ofParts p digits).text.toList = (p ++ "." ++ digits).toList at hchars
      rw [htext, toList_dotted, toList_dotted, List.append_cons_inj_of_notMem hdot
        (dot_notMem_of_decode? hread), String.toList_inj] at hchars
      exact hchars.1 ▸ ⟨hpolicy, hdot⟩
  · intro hpolicy
    obtain ⟨-, hname⟩ := parts_of_isPolicy hpolicy digits
    rw [hname]
    exact ⟨hne, hdigits⟩

/-- Policy and name are told from the id that they make, if the policy can be told from a name.  An
id is put together again from its parts exactly if it is not dangling, and all other ids are told
apart by their parts.  The text whose bytes a name gives in digits is told, behind such a policy and
behind no other one. -/
theorem rebuilt_from_parts :
    (∀ p n, IsPolicy p → (ofParts p n).policy = p ∧ (ofParts p n).name = n) ∧
    (∀ a, ofParts a.policy a.name = a ↔ ¬ a.Dangling) ∧
    (∀ a b : AssetId, ¬ a.Dangling → ¬ b.Dangling →
      a.policy = b.policy ∧ a.name = b.name → a = b) ∧
    ∀ p t, t ≠ "" → ((ofParts p (Octets.ofText t).hex).nameText? = some t ↔ IsPolicy p) := by
  refine ⟨fun p n hp => parts_of_isPolicy hp n, fun a => ⟨fun heq => ?_, ofParts_eq⟩,
    fun a b ha hb hparts => eq_of_parts ha hb hparts.1 hparts.2,
    fun p t ht => nameText?_ofParts_iff ?_ ht⟩
  -- What joining parts gives is never dangling.
  · rw [← heq]
    exact (parts_ofParts a).1
  -- The name of a text is written in hex, which decodes again.
  · rw [Octets.hex, String.toList_ofList, Hex.decode?_encode]

/-- A policy and the name of three letters, and the same id without its name and with the dot. -/
theorem rebuilt_from_parts_named :
    (ofParts "aa" (Octets.ofText "MIN").hex).nameText? = some "MIN" ∧
    (ofParts "aa" "4d494e").policy = "aa" ∧ (ofParts "aa" "4d494e").name = "4d494e" ∧
    ofParts (policy ⟨"aa."⟩) (name ⟨"aa."⟩) ≠ ⟨"aa."⟩ := by
  obtain ⟨hparts, hrebuilt, -, htext⟩ := rebuilt_from_parts
  have haa : IsPolicy "aa" := ⟨by decide, by decide⟩
  have hdangling : Dangling ⟨"aa."⟩ := ⟨"aa", by decide, by decide, rfl⟩
  exact ⟨(htext "aa" "MIN" (by decide)).2 haa, (hparts _ _ haa).1, (hparts _ _ haa).2,
    fun heq => (hrebuilt _).1 heq hdangling⟩

end ChainFollower.AssetId
