import Mathlib.Data.List.Pairwise
import SourceSearch.Proofs.DeclaredTypes

/-!
# The innermost type around a range

The types of a unit are listed in the order of their declarations, an outer type before those nested
in it. What a type itself writes, its name, its head and its own members, lies in its declaration,
but in none that is nested in it (`TypeDecl.Owns`) and in none that comes later. So the last type
whose declaration encloses such a range is the one that writes it (`enclosingType?_of_owns`), and no
declaration encloses an import (`enclosingType?_of_import`).
-/

set_option autoImplicit false

namespace SourceSearch

variable {text : String} {lo hi border opening : Nat}

/-! ## Ranges apart from each other -/

/-- Two ranges do not overlap. -/
def TextRange.Apart (range other : TextRange) : Prop :=
  range.stop ≤ other.start ∨ other.stop ≤ range.start

/-- A range which is not empty and apart from another one is enclosed by nothing that lies in that
one. -/
theorem TextRange.Apart.encloses_eq_false {range other inner : TextRange} (h : range.Apart other)
    (hpos : range.start < range.stop) (hinner : inner.LiesIn other.start other.stop) :
    inner.encloses range = false := by
  have hstart := hinner.start_le
  have hstop := hinner.le_stop
  refine decide_eq_false fun hencloses => ?_
  rcases h with h | h <;> omega

theorem TextRange.apart_of_liesIn {range other : TextRange} (h : range.LiesIn lo border)
    (h' : other.LiesIn border hi) : range.Apart other :=
  Or.inl (Nat.le_trans h.le_stop h'.start_le)

/-! ## What a type writes -/

/-- A range in a declaration that no declaration nested in it reaches into. -/
structure TypeDecl.Owns (decl : TypeDecl) (range : TextRange) : Prop where
  lies : range.LiesIn decl.head.range.start decl.head.range.stop
  apart : ∀ inner, .type inner ∈ decl.members → range.Apart inner.head.range

theorem Walk.type_mem (decl : TypeDecl) : Node.type decl ∈ Walk.typeDecl decl := by
  obtain ⟨head, members⟩ := decl
  rw [Walk.typeDecl]
  exact List.mem_cons_self

theorem LieIn.member {ms : List Member} (h : LieIn lo hi (Walk.members ms)) {m : Member}
    (hm : m ∈ ms) : LieIn lo hi (Walk.member m) := by
  intro node hnode
  refine h node ?_
  rw [Walk.members_eq_flatMap]
  exact List.mem_flatMap.2 ⟨m, hm, hnode⟩

theorem LieIn.type {inner : TypeDecl} (h : LieIn lo hi (Walk.typeDecl inner)) :
    inner.head.range.LiesIn lo hi :=
  h _ (Walk.type_mem inner)

namespace TypeDecl.LaidOut

variable {decl : TypeDecl} {range : TextRange}

/-- **What stands in the head** of a type is its own. -/
theorem owns_of_head (h : decl.LaidOut opening)
    (hrange : range.LiesIn decl.head.range.start opening) : decl.Owns range :=
  ⟨hrange.widen (Nat.le_refl _) h.opening_le,
    fun _ hinner => TextRange.apart_of_liesIn hrange (h.members.member hinner).type⟩

/-- **What stands in a member** of a type, unless that is itself a type, is its own. -/
theorem owns_of_member (h : decl.LaidOut opening) {m : Member} (hm : m ∈ decl.members)
    (hplain : ¬m.IsType)
    (hrange : ∀ {lo hi}, LieIn lo hi (Walk.member m) → range.LiesIn lo hi) : decl.Owns range := by
  refine ⟨?_, fun inner hinner => ?_⟩
  · exact (hrange (h.members.member hm)).widen (Nat.le_of_lt h.name.lt) (Nat.le_refl _)
  · -- members one of which is a type are apart, in whatever order they stand
    have hne : m ≠ .type inner := fun heq => hplain (heq ▸ True.intro)
    have : Std.Symm fun a b : Member => a.Before b ∨ b.Before a := ⟨fun _ _ => Or.symm⟩
    have hmembers : decl.members.Pairwise fun a b => a.Before b ∨ b.Before a :=
      h.apart.imp fun hab => Or.inl hab
    rcases hmembers.forall hm hinner hne with hbefore | hbefore
    · obtain ⟨lo, border, hi, hleft, hright⟩ := hbefore (Or.inr True.intro)
      exact TextRange.apart_of_liesIn (hrange hleft) (LieIn.type hright)
    · obtain ⟨lo, border, hi, hleft, hright⟩ := hbefore (Or.inl True.intro)
      exact Or.inr (Nat.le_trans (LieIn.type hleft).le_stop (hrange hright).start_le)

/-- All of a type lies in its declaration. -/
theorem lieIn (h : decl.LaidOut opening) :
    LieIn decl.head.range.start decl.head.range.stop (Walk.typeDecl decl) := by
  have hopening := h.name.lt
  have hstop := h.opening_le
  obtain ⟨head, members⟩ := decl
  rw [Walk.typeDecl]
  refine List.forall_mem_append.2 ⟨List.forall_mem_cons.2 ⟨?_, fun node hnode => ?_⟩,
    fun node hnode => (h.members node hnode).widen (Nat.le_of_lt hopening) (Nat.le_refl _)⟩
  · exact ⟨Nat.le_refl _, Nat.lt_of_lt_of_le hopening hstop, Nat.le_refl _⟩
  · obtain ⟨ref, href, rfl⟩ := List.mem_map.1 hnode
    exact (h.supertypes ref href).widen (Nat.le_refl _) hstop

end TypeDecl.LaidOut

/-- A declaration inside another one that was read lies in it. -/
theorem ReadIn.liesIn_of_at? {decl inner : TypeDecl} (h : ReadIn text lo hi (Walk.typeDecl decl))
    {path : List Nat} (hat : decl.at? path = some inner) :
    inner.head.range.LiesIn decl.head.range.start decl.head.range.stop := by
  obtain ⟨opening, hlaid⟩ := (h _ (Walk.type_mem decl)).ordered
  exact hlaid.lieIn _ (TypeDecl.walk_subset hat (Walk.type_mem inner))

/-! ## The order of declared types -/

/-- The declaration at a path in a unit. -/
def CompilationUnit.at? (unit : CompilationUnit) : List Nat → Option TypeDecl
  | [] => none
  | first :: path => unit.types[first]?.bind (·.at? path)

namespace DeclaredType

variable {unit : CompilationUnit}

theorem decl?_eq (info : DeclaredType) : info.decl? unit = unit.at? info.path := by
  unfold decl? CompilationUnit.at?
  cases info.path <;> rfl

/-- Whether the declaration of a type encloses a range. -/
def encloses (unit : CompilationUnit) (range : TextRange) (info : DeclaredType) : Bool :=
  (info.decl? unit).any (·.head.range.encloses range)

/-- The declaration of a type encloses what the type writes. -/
theorem encloses_of_owns {info : DeclaredType} {decl : TypeDecl} {range : TextRange}
    (hdecl : info.decl? unit = some decl) (howns : decl.Owns range) :
    info.encloses unit range = true := by
  rw [encloses, hdecl]
  exact decide_eq_true ⟨howns.lies.start_le, howns.lies.le_stop⟩

/-- What one type writes is enclosed by no declaration of the other. -/
def Keeps (unit : CompilationUnit) (info other : DeclaredType) : Prop :=
  ∀ decl range, info.decl? unit = some decl → decl.Owns range →
    other.encloses unit range = false

/-- A declared type in a declaration does not enclose what is apart from that declaration. -/
theorem encloses_eq_false {info : DeclaredType} {decl : TypeDecl} {below : List Nat}
    {range : TextRange} (h : ReadIn text lo hi (Walk.typeDecl decl))
    (hdecl : info.decl? unit = decl.at? below) (hpos : range.start < range.stop)
    (hapart : range.Apart decl.head.range) : info.encloses unit range = false := by
  unfold encloses
  rw [hdecl]
  cases hat : decl.at? below with
  | none => rfl
  | some inner => exact hapart.encloses_eq_false hpos (h.liesIn_of_at? hat)

/-- What a type in one declaration writes is kept from the types in a later declaration. -/
theorem keeps_of_before {info other : DeclaredType} {decl decl' : TypeDecl}
    {below below' : List Nat}
    (h : ReadIn text lo hi (Walk.typeDecl decl)) (h' : ReadIn text lo hi (Walk.typeDecl decl'))
    (hdecl : info.decl? unit = decl.at? below) (hdecl' : other.decl? unit = decl'.at? below')
    (hbefore : (Member.type decl).Before (.type decl')) : Keeps unit info other := by
  intro inner range hinner howns
  obtain ⟨lo, border, hi, hleft, hright⟩ := hbefore (Or.inl True.intro)
  have hinner' := h.liesIn_of_at? (hdecl.symm.trans hinner)
  refine encloses_eq_false h' hdecl' howns.lies.pos (Or.inl ?_)
  exact Nat.le_trans howns.lies.le_stop (Nat.le_trans hinner'.le_stop
    (Nat.le_trans (LieIn.type hleft).le_stop (LieIn.type hright).start_le))

variable {origin : Origin} {package : String}

/-- The members behind the first one stand one place further on. -/
theorem at?_behind {first : Member} {rest : List Member} {path : List Nat} {index : Nat}
    (hat : ∀ i decl below, (first :: rest)[i]? = some (.type decl) →
      unit.at? (path ++ (index + i) :: below) = decl.at? below) :
    ∀ i decl below, rest[i]? = some (.type decl) →
      unit.at? (path ++ (index + 1 + i) :: below) = decl.at? below := by
  intro i decl below hdecl
  rw [Nat.add_assoc, Nat.add_comm 1 i]
  exact hat (i + 1) decl below hdecl

mutual

/-- **A type comes before the types nested in it**, and keeps what it writes from them. -/
theorem pairwise_collectDecl :
    ∀ (decl : TypeDecl) {outer : Option String} {qualified : String} {path : List Nat},
      (∀ below, unit.at? (path ++ below) = decl.at? below) →
      ReadIn text lo hi (Walk.typeDecl decl) →
      (collectDecl origin package outer qualified path decl).Pairwise (Keeps unit)
  | ⟨head, members⟩, outer, qualified, path, hat, h => by
    obtain ⟨opening, hlaid⟩ := (h _ (Walk.type_mem _)).ordered
    have hread : ReadIn text lo hi (Walk.members members) := by
      rw [Walk.typeDecl] at h
      exact (readIn_append.1 h).2
    have hmembers : ∀ i decl below, members[i]? = some (.type decl) →
        unit.at? (path ++ (0 + i) :: below) = decl.at? below := by
      intro i decl below hdecl
      rw [Nat.zero_add, hat, TypeDecl.at?, hdecl]
    rw [collectDecl]
    refine List.pairwise_cons.2 ⟨fun other hother decl range hdecl howns => ?_,
      pairwise_collectMembers members hmembers hread hlaid.apart⟩
    have hself := hat []
    rw [List.append_nil, TypeDecl.at?] at hself
    obtain rfl : ⟨head, members⟩ = decl :=
      Option.some.inj (hself.symm.trans ((decl?_eq _).symm.trans hdecl))
    obtain ⟨i, inner, below, found, hget, hpath, -, -⟩ :=
      exists_at?_of_mem_collectMembers members hother
    have hmem := List.mem_of_getElem? hget
    have hinner : ReadIn text lo hi (Walk.typeDecl inner) :=
      fun node hnode => h node (Walk.member_subset (m := .type inner) hmem hnode)
    have hfound : other.decl? unit = inner.at? below := by
      rw [decl?_eq, hpath]
      exact hmembers i inner below hget
    exact encloses_eq_false hinner hfound howns.lies.pos (howns.apart inner hmem)

theorem pairwise_collectMembers :
    ∀ (members : List Member) {outer : String} {path : List Nat} {index : Nat},
      (∀ i decl below, members[i]? = some (.type decl) →
        unit.at? (path ++ (index + i) :: below) = decl.at? below) →
      ReadIn text lo hi (Walk.members members) → members.Pairwise Member.Before →
      (collectMembers origin package outer path index members).Pairwise (Keeps unit)
  | [], _, _, _, _, _, _ => by
    rw [collectMembers]
    exact .nil
  | .type ⟨head, inner⟩ :: rest, outer, path, index, hat, h, hapart => by
    obtain ⟨hfirst, hrest⟩ := readIn_append.1 h
    obtain ⟨hbefore, hapart⟩ := List.pairwise_cons.1 hapart
    have hself : ∀ below,
        unit.at? (path ++ [index] ++ below) = TypeDecl.at? ⟨head, inner⟩ below := by
      intro below
      rw [List.append_assoc]
      exact hat 0 _ below rfl
    rw [collectMembers]
    refine List.pairwise_append.2 ⟨pairwise_collectDecl ⟨head, inner⟩ hself hfirst,
      pairwise_collectMembers rest (at?_behind hat) hrest hapart, fun info hinfo other hother => ?_⟩
    obtain ⟨below, found, hpath, -, -⟩ := exists_at?_of_mem_collectDecl ⟨head, inner⟩ hinfo
    obtain ⟨i, decl, below', found', hdecl, hpath', -, -⟩ :=
      exists_at?_of_mem_collectMembers rest hother
    have hmem := List.mem_of_getElem? hdecl
    rw [Walk.members_eq_flatMap, readIn_flatMap] at hrest
    have hdecl' : ReadIn text lo hi (Walk.typeDecl decl) := hrest _ hmem
    have hinner : ReadIn text lo hi (Walk.typeDecl ⟨head, inner⟩) := hfirst
    have hfound : info.decl? unit = TypeDecl.at? ⟨head, inner⟩ below := by
      rw [decl?_eq, hpath]
      exact hself below
    have hfound' : other.decl? unit = decl.at? below' := by
      rw [decl?_eq, hpath']
      exact at?_behind hat i decl below' hdecl
    exact keeps_of_before hinner hdecl' hfound hfound' (hbefore _ hmem)
  | .field _ _ :: rest, _, _, _, hat, h, hapart => by
    rw [collectMembers]
    exact pairwise_collectMembers rest (at?_behind hat) (readIn_append.1 h).2
      (List.pairwise_cons.1 hapart).2
  | .method _ _ :: rest, _, _, _, hat, h, hapart => by
    rw [collectMembers]
    exact pairwise_collectMembers rest (at?_behind hat) (readIn_append.1 h).2
      (List.pairwise_cons.1 hapart).2
  | .initializer _ _ _ :: rest, _, _, _, hat, h, hapart => by
    rw [collectMembers]
    exact pairwise_collectMembers rest (at?_behind hat) (readIn_append.1 h).2
      (List.pairwise_cons.1 hapart).2

end

end DeclaredType

/-- **The types of a unit** keep what they write from the types that come later. -/
theorem pairwise_collectTypes {unit : CompilationUnit} (h : unit.ReadIn text border hi)
    (origin : Origin) : (collectTypes unit origin).Pairwise (DeclaredType.Keeps unit) := by
  have hread := h.types.read
  rw [Walk.members_eq_flatMap, readIn_flatMap] at hread
  have htop : ∀ {decl index}, (decl, index) ∈ unit.types.zipIdx →
      unit.types[index]? = some decl ∧ ReadIn text border hi (Walk.typeDecl decl) := by
    intro decl index hmem
    refine ⟨by simpa using List.mem_zipIdx_iff_getElem?.1 hmem, ?_⟩
    exact hread _ (List.mem_map_of_mem (List.fst_mem_of_mem_zipIdx hmem))
  have hapart : unit.types.zipIdx.Pairwise
      fun a b => (Member.type a.1).Before (.type b.1) := by
    have htypes := h.types.apart
    rw [List.pairwise_map, ← List.zipIdx_map_fst 0 unit.types, List.pairwise_map] at htypes
    exact htypes
  have hat : ∀ {decl index}, unit.types[index]? = some decl →
      ∀ below, unit.at? ([index] ++ below) = decl.at? below := by
    intro decl index hget below
    show unit.types[index]?.bind _ = _
    rw [hget]
    rfl
  unfold collectTypes
  refine List.pairwise_flatten.2 ⟨?_, List.pairwise_map.2 ?_⟩
  · intro infos hinfos
    obtain ⟨⟨decl, index⟩, hmem, rfl⟩ := List.mem_map.1 hinfos
    obtain ⟨hget, hdecl⟩ := htop hmem
    exact DeclaredType.pairwise_collectDecl decl (hat hget) hdecl
  · refine hapart.imp_of_mem fun {a b} ha hb hbefore info hinfo other hother => ?_
    obtain ⟨hget, hdecl⟩ := htop ha
    obtain ⟨hget', hdecl'⟩ := htop hb
    obtain ⟨below, found, hpath, -, -⟩ := DeclaredType.exists_at?_of_mem_collectDecl a.1 hinfo
    obtain ⟨below', found', hpath', -, -⟩ := DeclaredType.exists_at?_of_mem_collectDecl b.1 hother
    have hfound : info.decl? unit = a.1.at? below := by
      rw [DeclaredType.decl?_eq, hpath, hat hget]
    have hfound' : other.decl? unit = b.1.at? below' := by
      rw [DeclaredType.decl?_eq, hpath', hat hget']
    exact DeclaredType.keeps_of_before hdecl hdecl' hfound hfound' hbefore

/-! ## The innermost type -/

/-- The last element that passes a test is one that passes it and is behind by nothing that does. -/
theorem getLast?_filter_eq {α : Type} {R : α → α → Prop} {test : α → Bool} {a : α} {as : List α}
    (hmem : a ∈ as) (ha : test a = true) (hbehind : ∀ b, R a b → test b = false)
    (h : as.Pairwise R) : (as.filter test).getLast? = some a := by
  obtain ⟨before, after, rfl⟩ := List.append_of_mem hmem
  have hafter : after.filter test = [] := by
    refine List.filter_eq_nil_iff.2 fun b hb htest => ?_
    rw [hbehind b ((List.pairwise_cons.1 (List.pairwise_append.1 h).2.1).1 b hb)] at htest
    cases htest
  rw [List.filter_append, List.filter_cons_of_pos ha, hafter]
  simp

variable {file : SourceFile} {unit : CompilationUnit} {range : TextRange} {origin : Origin}

/-- **What a type writes** has that type as the innermost one around it. -/
theorem SourceFile.enclosingType?_of_owns (hunit : file.unit? = some unit)
    (htypes : file.types = collectTypes unit origin) (h : unit.ReadIn text border hi)
    {info : DeclaredType} (hinfo : info ∈ file.types) {decl : TypeDecl}
    (hdecl : info.decl? unit = some decl) (howns : decl.Owns range) :
    file.enclosingType? range = some info.key := by
  have hlast := getLast?_filter_eq hinfo (DeclaredType.encloses_of_owns hdecl howns)
    (fun other hkeeps => hkeeps decl range hdecl howns)
    (htypes ▸ pairwise_collectTypes h origin)
  rw [enclosingType?, hunit]
  exact congrArg (Option.map (·.key)) hlast

/-- **An import** has no type around it. -/
theorem SourceFile.enclosingType?_of_import (hunit : file.unit? = some unit)
    (htypes : file.types = collectTypes unit origin) (h : unit.ReadIn text border hi)
    (hrange : range.LiesIn 0 border) : file.enclosingType? range = none := by
  have hnone : file.types.filter (·.encloses unit range) = [] := by
    refine List.filter_eq_nil_iff.2 fun info hinfo hencloses => ?_
    obtain ⟨decl, hdecl, -⟩ := DeclaredType.exists_decl? (htypes ▸ hinfo)
    have hdecl' := (h.nodes _ (DeclaredType.walk_subset hdecl (Walk.type_mem decl))).lies
    rw [DeclaredType.encloses, hdecl] at hencloses
    obtain ⟨hstart, hstop⟩ := of_decide_eq_true hencloses
    have hborder := hrange.le_stop
    have hpos := hrange.pos
    have hbehind : border ≤ decl.head.range.start := hdecl'.start_le
    omega
  rw [enclosingType?, hunit]
  exact congrArg (fun infos => infos.getLast?.map (·.key)) hnone

end SourceSearch
