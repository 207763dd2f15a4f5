import Mathlib.Data.List.Forall2
import ConstraintStreams.Session.Explanation

/-!
# Telling facts apart

Every type of facts has rules of its own for telling whether another fact stands for the same thing,
and whether it is exactly the same. `Fact.recognizes` and `Fact.repeats` are these rules, type by type;
they come to the same as `Fact.Same` and as equality. `Fact.identity_lawful` says that both are
equivalences, how they are related, and that facts that stand for the same thing are hashed alike,
whichever function of the bytes it is fed with a hasher may be.
-/

namespace ConstraintStreams

namespace Fact

/-! ## The rules of the types -/

mutual
/-- By the rule of its own type, the fact stands for the same as another: an entity wants the type and
the id of the other to be its own, a scalar compares values, and a list goes through the items. -/
def recognizes : Fact → Fact → Bool
  | entity e, b => b.type = .entity e.type ∧ b.id = .number e.id
  | scalar s, scalar t => s = t
  | list as, list bs => recognizesAll as bs
  | scalar _, _ | list _, _ => false
/-- As many facts as others, each of which stands for the same as the one in its place. -/
def recognizesAll : List Fact → List Fact → Bool
  | [], [] => true
  | a :: as, b :: bs => recognizes a b && recognizesAll as bs
  | _, _ => false
end

mutual
/-- By the rule of its own type, the fact is exactly the same as another: an entity wants to be that very
version, a scalar compares values, and a list goes through the items. -/
def repeats : Fact → Fact → Bool
  | entity e, entity f => e = f
  | scalar s, b => recognizes (scalar s) b
  | list as, list bs => repeatsAll as bs
  | entity _, _ | list _, _ => false
/-- As many facts as others, each of which is exactly the same as the one in its place. -/
def repeatsAll : List Fact → List Fact → Bool
  | [], [] => true
  | a :: as, b :: bs => repeats a b && repeatsAll as bs
  | _, _ => false
end

/-- Two entities stand for the same thing if they have one type and one id. -/
theorem same_entity_iff {e f : Entity} : (entity e).Same (entity f) ↔ f.type = e.type ∧ f.id = e.id := by
  obtain ⟨type, id, version, attributes⟩ := e
  obtain ⟨type', id', version', attributes'⟩ := f
  simp [Same, identity, eq_comm]

mutual
/-- The rules for what facts stand for come to the same identity. -/
theorem recognizes_iff : ∀ a b : Fact, a.recognizes b = true ↔ a.Same b
  | entity e, entity f => by
    rw [same_entity_iff]
    simp [recognizes, type, id]
  | scalar s, scalar t => by simp [recognizes, Same, identity]
  | list as, list bs => by
    rw [recognizes, recognizesAll_iff as bs]
    simp [Same, identity]
  | entity _, scalar _ | entity _, list _ => by simp [recognizes, Same, identity, type]
  | scalar _, entity _ | scalar _, list _ | list _, entity _ | list _, scalar _ => by
    simp [recognizes, Same, identity]
theorem recognizesAll_iff : ∀ as bs : List Fact,
    recognizesAll as bs = true ↔ identities as = identities bs
  | [], [] => by simp [recognizesAll]
  | a :: as, b :: bs => by
    rw [recognizesAll, Bool.and_eq_true, recognizes_iff a b, recognizesAll_iff as bs]
    simp [identities, Same]
  | [], _ :: _ | _ :: _, [] => by simp [recognizesAll, identities]
end

mutual
/-- The rules for exact sameness come to equality. -/
theorem repeats_iff : ∀ a b : Fact, a.repeats b = true ↔ a = b
  | entity e, entity f => by simp [repeats]
  | scalar s, scalar t => by simp [repeats, recognizes]
  | list as, list bs => by
    rw [repeats, repeatsAll_iff as bs]
    simp
  | scalar _, entity _ | scalar _, list _ => by simp [repeats, recognizes]
  | entity _, scalar _ | entity _, list _ | list _, entity _ | list _, scalar _ => by simp [repeats]
theorem repeatsAll_iff : ∀ as bs : List Fact, repeatsAll as bs = true ↔ as = bs
  | [], [] => by simp [repeatsAll]
  | a :: as, b :: bs => by
    rw [repeatsAll, Bool.and_eq_true, repeats_iff a b, repeatsAll_iff as bs]
    simp
  | [], _ :: _ | _ :: _, [] => by simp [repeatsAll]
end

theorem recognizesAll_iff_same (as bs : Facts) : recognizesAll as bs = true ↔ Facts.Same as bs := by
  rw [recognizesAll_iff, identities_eq_map, identities_eq_map]
  rfl

/-! ## Facts without entities -/

mutual
/-- There is no entity in the fact, however deep. -/
def isPlain : Fact → Bool
  | entity _ => false
  | scalar _ => true
  | list items => arePlain items
/-- There is no entity in the facts, however deep. -/
def arePlain : List Fact → Bool
  | [] => true
  | a :: as => isPlain a && arePlain as
end

mutual
/-- What has no versions is all that it stands for. -/
theorem eq_of_same_of_isPlain : ∀ a b : Fact, a.isPlain = true → a.Same b → a = b
  | scalar s, scalar t, _, h => h
  | list as, list bs, hplain, h => by
    rw [eq_of_identities_of_arePlain as bs hplain (list.inj h)]
  | scalar _, entity _, _, h | scalar _, list _, _, h | list _, entity _, _, h | list _, scalar _, _, h => by
    cases h
theorem eq_of_identities_of_arePlain : ∀ as bs : List Fact, arePlain as = true →
    identities as = identities bs → as = bs
  | [], [], _, _ => rfl
  | a :: as, b :: bs, hplain, h => by
    obtain ⟨ha, has⟩ := Bool.and_eq_true_iff.1 hplain
    obtain ⟨hab, hrest⟩ := List.cons.inj h
    rw [eq_of_same_of_isPlain a b ha hab, eq_of_identities_of_arePlain as bs has hrest]
  | [], _ :: _, _, h | _ :: _, [], _, h => by cases h
end

end Fact

/-! ## Hashing -/

/-- A hasher, and how types, words and scalars are fed to it as bytes. It may be any function of these. -/
structure Hasher where
  typeBytes : FactType → List UInt8
  wordBytes : UInt64 → List UInt8
  scalarBytes : Scalar → List UInt8
  finish : List UInt8 → UInt64

namespace Hasher

variable (h : Hasher)

mutual
/-- The hash of a fact: of the type and the id of an entity, of the type and the value of a scalar, where
a float is the word of its bits, and of the items of a list. -/
def hash : Fact → UInt64
  | .entity e => h.finish (h.typeBytes (.entity e.type) ++ h.wordBytes e.id.toUInt64)
  | .scalar (.float bits) =>
    h.finish (h.typeBytes (.scalar .uint64) ++ h.scalarBytes (.uint64 bits))
  | .scalar s => h.finish (h.typeBytes (.scalar s.type) ++ h.scalarBytes s)
  | .list items => h.finish (h.wordBytes (.ofNat items.length) ++ feedItems items)
/-- The hashes of some facts, as bytes. -/
def feedItems : List Fact → List UInt8
  | [] => []
  | a :: as => h.wordBytes (hash a) ++ feedItems as
end

/-- What is fed of some facts as a whole: how many there are, and their hashes. -/
def feed (facts : Facts) : List UInt8 := h.wordBytes (.ofNat facts.length) ++ h.feedItems facts

/-- The id of a fact as a word, which is the hash where the fact has no number. -/
def id (a : Fact) : Int64 :=
  match a.id with
  | .number n => n
  | .digest _ => (h.hash a).toInt64

mutual
/-- A fact is hashed as what it stands for. -/
@[simp] theorem hash_identity : ∀ a : Fact, h.hash a.identity = h.hash a
  | .entity e => by simp [Fact.identity, hash]
  | .scalar s => rfl
  | .list items => by
    have hlength : (Fact.identities items).length = items.length := by
      rw [Fact.identities_eq_map, List.length_map]
    rw [Fact.identity, hash, hash, hlength, feedItems_identities items]
theorem feedItems_identities : ∀ as : List Fact, h.feedItems (Fact.identities as) = h.feedItems as
  | [] => rfl
  | a :: as => by simp [Fact.identities, feedItems, hash_identity a, feedItems_identities as]
end

theorem length_blurItems (as : List Fact) : (Fact.blurItems as).length = as.length := by
  induction as with
  | nil => rfl
  | cons a as ih => simp [Fact.blurItems, ih]

mutual
/-- Hashing does not see more than digests show. -/
@[simp] theorem hash_blur : ∀ a : Fact, h.hash a.blur = h.hash a
  | .entity e => rfl
  | .scalar s => by cases s <;> rfl
  | .list items => by
    simp only [Fact.blur, hash, feedItems_blurItems items, length_blurItems]
theorem feedItems_blurItems : ∀ as : List Fact, h.feedItems (Fact.blurItems as) = h.feedItems as
  | [] => rfl
  | a :: as => by simp only [Fact.blurItems, feedItems, hash_blur a, feedItems_blurItems as]
end

/-- Facts of one digest have one hash. -/
theorem hash_eq_of_digest {a b : Fact} (hdigest : a.digest = b.digest) : h.hash a = h.hash b := by
  have key (c : Fact) : h.hash c.digest = h.hash c := by
    rw [Fact.digest, hash_blur, hash_identity]
  rw [← key a, hdigest, key b]

theorem feed_eq_of_same {as bs : Facts} (hsame : Facts.Same as bs) : h.feed as = h.feed bs := by
  have key (cs : Facts) : h.feed (Facts.identity cs) = h.feed cs := by
    unfold feed Facts.identity
    rw [List.length_map, ← Fact.identities_eq_map, feedItems_identities]
  rw [← key as, show Facts.identity as = Facts.identity bs from hsame, key bs]

end Hasher

/-! ## The laws -/

/-- Two comparisons tell things apart by what they stand for and by content: both are equivalences, the
second is the finer one, they differ on what is not plain only, and what is fed to a hasher shows no more
than the first. -/
structure Discernment {α β : Type} (recognizes repeats : α → α → Bool) (isPlain : α → Bool) (feed : α → β) :
    Prop where
  standing : Equivalence fun a b => recognizes a b = true
  content : Equivalence fun a b => repeats a b = true
  of_content : ∀ a b, repeats a b = true → recognizes a b = true
  of_plain : ∀ a b, isPlain a = true → recognizes a b = true → repeats a b = true
  feeds : ∀ a b, recognizes a b = true → feed a = feed b

/-- Comparisons are a discernment if they come to equality of what things stand for and to equality. -/
theorem Discernment.of_iff {α β γ : Type} {recognizes repeats : α → α → Bool} {isPlain : α → Bool}
    {feed : α → β} (standsFor : α → γ) (hrecognizes : ∀ a b, recognizes a b = true ↔ standsFor a = standsFor b)
    (hrepeats : ∀ a b, repeats a b = true ↔ a = b)
    (hplain : ∀ a b, isPlain a = true → standsFor a = standsFor b → a = b)
    (hfeed : ∀ a b, standsFor a = standsFor b → feed a = feed b) :
    Discernment recognizes repeats isPlain feed where
  standing := by
    simp only [hrecognizes]
    exact ⟨fun _ => rfl, Eq.symm, Eq.trans⟩
  content := by
    simp only [hrepeats]
    exact ⟨fun _ => rfl, Eq.symm, Eq.trans⟩
  of_content a b h := (hrecognizes a b).2 (congrArg standsFor ((hrepeats a b).1 h))
  of_plain a b hp h := (hrepeats a b).2 (hplain a b hp ((hrecognizes a b).1 h))
  feeds a b h := hfeed a b ((hrecognizes a b).1 h)

namespace Fact

theorem recognizesAll_iff_forall₂ (as bs : List Fact) :
    recognizesAll as bs = true ↔ List.Forall₂ (fun a b => a.recognizes b = true) as bs := by
  induction as generalizing bs with
  | nil => cases bs <;> simp [recognizesAll]
  | cons a as ih => cases bs <;> simp [recognizesAll, ih]

theorem repeatsAll_iff_forall₂ (as bs : List Fact) :
    repeatsAll as bs = true ↔ List.Forall₂ (fun a b => a.repeats b = true) as bs := by
  induction as generalizing bs with
  | nil => cases bs <;> simp [repeatsAll]
  | cons a as ih => cases bs <;> simp [repeatsAll, ih]

theorem toInt64_injective {m n : UInt64} (h : m.toInt64 = n.toInt64) : m = n := by
  simpa using congrArg Int64.toUInt64 h

/-- Scalars of one type whose ids are one number are one scalar: no number is cut short. -/
theorem scalar_of_scalarId {n : Int64} : ∀ s t : Scalar, s.type = t.type → scalarId s = .number n →
    scalarId t = .number n → s = t
  | .int64 _, .int64 _, _, hs, ht => by rw [Id.number.inj hs, Id.number.inj ht]
  | .int32 a, .int32 b, _, hs, ht => by
    have h : a.toInt64.toInt32 = b.toInt64.toInt32 := by rw [Id.number.inj hs, Id.number.inj ht]
    simpa using h
  | .uint32 a, .uint32 b, _, hs, ht => by
    have h : a.toUInt64 = b.toUInt64 := toInt64_injective ((Id.number.inj hs).trans (Id.number.inj ht).symm)
    rw [UInt32.toUInt64_inj.1 h]
  | .uint64 _, .uint64 _, _, hs, ht | .size _, .size _, _, hs, ht | .float _, .float _, _, hs, ht => by
    rw [toInt64_injective ((Id.number.inj hs).trans (Id.number.inj ht).symm)]
  | .bool a, .bool b, _, hs, ht => by
    have h : (if a then 1 else 0 : Int64) = if b then 1 else 0 :=
      (Id.number.inj hs).trans (Id.number.inj ht).symm
    cases a <;> cases b <;> first | rfl | exact absurd h (by decide)
  | .char a, .char b, _, hs, ht => by
    have h : a.val.toUInt64 = b.val.toUInt64 :=
      toInt64_injective ((Id.number.inj hs).trans (Id.number.inj ht).symm)
    rw [Char.ext (UInt32.toUInt64_inj.1 h)]

/-- The id of a fact that has a number. -/
theorem exists_number {a : Fact} (hnumber : a.isDigested = false) : ∃ n, a.id = .number n := by
  unfold isDigested at hnumber
  split at hnumber
  · exact absurd hnumber (by decide)
  case _ n heq => exact ⟨n, heq⟩

/-- Facts of one type, one of which has a number, have one id only if they stand for the same thing. -/
theorem same_of_number {n : Int64} : ∀ a b : Fact, a.type = b.type → a.id = .number n → b.id = .number n →
    a.Same b
  | entity e, entity f, htype, ha, hb => by
    refine same_entity_iff.2 ⟨?_, (Id.number.inj hb).trans (Id.number.inj ha).symm⟩
    exact (FactType.entity.inj htype).symm
  | scalar s, scalar t, htype, ha, hb => by
    rw [scalar_of_scalarId s t (FactType.scalar.inj htype) ha hb]
    rfl

theorem type_eq_of_same : ∀ {a b : Fact}, a.Same b → a.type = b.type
  | entity e, entity f, h => by rw [type, type, (same_entity_iff.1 h).1]
  | scalar s, scalar t, h => by rw [Fact.scalar.inj h]
  | list _, list _, _ => rfl

/-- A number stands for the same thing as the fact. -/
theorem number_of_same {n : Int64} : ∀ {a b : Fact}, a.Same b → a.id = .number n → b.id = .number n
  | entity e, entity f, h, ha => by rw [id, (same_entity_iff.1 h).2]; exact ha
  | scalar s, scalar t, h, ha => by rwa [← Fact.scalar.inj h]

/-- Whether a fact has a number is a matter of its type. -/
theorem isDigested_eq_of_type : ∀ {a b : Fact}, a.type = b.type → a.isDigested = b.isDigested
  | entity _, entity _, _ => rfl
  | list _, list _, _ => rfl
  | scalar s, scalar t, h => by cases s <;> cases t <;> first | rfl | cases h

/-- Facts of one type that have numbers stand for the same thing if the numbers are one. -/
theorem same_iff_number {a b : Fact} (hnumber : a.isDigested = false) :
    a.Same b ↔ a.type = b.type ∧ ∃ n, a.id = .number n ∧ b.id = .number n := by
  constructor
  · intro hsame
    obtain ⟨n, hn⟩ := exists_number hnumber
    exact ⟨type_eq_of_same hsame, n, hn, number_of_same hsame hn⟩
  · rintro ⟨htype, n, ha, hb⟩
    exact same_of_number a b htype ha hb

/-- A key finds what stands for the same thing, if that has a number. -/
theorem key_eq_iff_same {a b : Fact} (hnumber : a.isDigested = false) : a.key = b.key ↔ a.Same b := by
  rw [same_iff_number hnumber]
  simp only [key, Key.mk.injEq]
  refine and_congr_right fun _ => ⟨fun hid => ?_, fun ⟨n, ha, hb⟩ => ha.trans hb.symm⟩
  obtain ⟨n, hn⟩ := exists_number hnumber
  exact ⟨n, hn, hid ▸ hn⟩

end Fact

namespace Hasher

variable (h : Hasher)

theorem id_of_number {a : Fact} {n : Int64} (hid : a.id = .number n) : h.id a = n := by
  simp only [id, hid]

/-- A type and a word are as good as a key, if the facts have numbers. -/
theorem id_eq_iff_same {a b : Fact} (hnumber : a.isDigested = false) :
    (a.type = b.type ∧ h.id a = h.id b) ↔ a.Same b := by
  rw [Fact.same_iff_number hnumber]
  refine and_congr_right fun htype => ?_
  obtain ⟨m, hm⟩ := Fact.exists_number hnumber
  obtain ⟨n, hn⟩ := Fact.exists_number ((Fact.isDigested_eq_of_type htype).symm.trans hnumber)
  rw [h.id_of_number hm, h.id_of_number hn, hm, hn]
  simp [eq_comm]

end Hasher

namespace Fact

/-- Telling facts apart is lawful, for single facts and for arrays, which are compared place by place.
The rules of the types are what sessions, classes and groups compare by, that is identity and equality,
and a fact that has a number is found under its type and number by what stands for the same thing and by
nothing else. -/
theorem identity_lawful (h : Hasher) :
    Discernment recognizes repeats isPlain h.hash ∧
    Discernment recognizesAll repeatsAll arePlain h.feed ∧
    (∀ as bs, recognizesAll as bs = true ↔ List.Forall₂ (fun a b => a.recognizes b = true) as bs) ∧
    (∀ as bs, repeatsAll as bs = true ↔ List.Forall₂ (fun a b => a.repeats b = true) as bs) ∧
    (∀ a b : Fact, (a.recognizes b = true ↔ a.Same b) ∧ (a.repeats b = true ↔ a = b)) ∧
    (∀ as bs : Facts, (recognizesAll as bs = true ↔ Facts.Same as bs) ∧ (repeatsAll as bs = true ↔ as = bs)) ∧
    ∀ a b : Fact, a.isDigested = false →
      ((a.type = b.type ∧ h.id a = h.id b) ↔ a.recognizes b = true) ∧ (a.key = b.key ↔ a.recognizes b = true) := by
  refine ⟨?_, ?_, recognizesAll_iff_forall₂, repeatsAll_iff_forall₂,
    fun a b => ⟨recognizes_iff a b, repeats_iff a b⟩,
    fun as bs => ⟨recognizesAll_iff_same as bs, repeatsAll_iff as bs⟩, fun a b hnumber => ?_⟩
  · refine .of_iff identity recognizes_iff repeats_iff eq_of_same_of_isPlain fun a b hsame => ?_
    exact h.hash_eq_of_digest (congrArg blur hsame)
  · exact .of_iff identities recognizesAll_iff repeatsAll_iff eq_of_identities_of_arePlain fun as bs hsame =>
      h.feed_eq_of_same ((recognizesAll_iff_same as bs).1 ((recognizesAll_iff as bs).2 hsame))
  · rw [recognizes_iff]
    exact ⟨h.id_eq_iff_same hnumber, key_eq_iff_same hnumber⟩

end Fact

end ConstraintStreams
