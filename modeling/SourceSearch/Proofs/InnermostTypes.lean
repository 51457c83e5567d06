import Mathlib.Logic.Relation
import SourceSearch.Proofs.EnclosingTypes

/-!
# The types around any range

Two declarations of a unit one of which is not inside the other do not overlap
(`CompilationUnit.apart_of_at?`), so the types around a range that is not empty stand in a row of
outer types (`DeclaredType.reflTransGen_of_isPrefix`). Types are listed before those inside them, so
the last one around the range is the innermost, and the row of its outer types is all there is
around the range (`SourceFile.enclosingType?_innermost`).
-/

set_option autoImplicit false

namespace SourceSearch

variable {text : String} {lo hi border : Nat}

open Relation (ReflTransGen)

/-! ## Declarations apart from each other -/

theorem TextRange.Apart.symm {range other : TextRange} (h : range.Apart other) :
    other.Apart range :=
  Or.symm h

/-- What lies in two ranges that are apart is apart. -/
theorem TextRange.Apart.of_liesIn {range other inner inner' : TextRange} (h : range.Apart other)
    (hinner : inner.LiesIn range.start range.stop)
    (hinner' : inner'.LiesIn other.start other.stop) : inner.Apart inner' :=
  h.imp (fun h => Nat.le_trans hinner.le_stop (Nat.le_trans h hinner'.start_le))
    (fun h => Nat.le_trans hinner'.le_stop (Nat.le_trans h hinner.start_le))

/-- No range that is not empty is enclosed by two that are apart. -/
theorem TextRange.Apart.not_encloses_both {range other inner : TextRange} (h : range.Apart other)
    (hpos : inner.start < inner.stop) (hrange : range.encloses inner = true) :
    other.encloses inner = false := by
  obtain ⟨hstart, hstop⟩ := of_decide_eq_true hrange
  refine decide_eq_false fun hother => ?_
  rcases h with h | h <;> omega

/-- Two types among the members of a type are apart. -/
theorem apart_of_before {members : List Member} (h : members.Pairwise Member.Before)
    {i j : Nat} {decl decl' : TypeDecl} (hi : members[i]? = some (.type decl))
    (hj : members[j]? = some (.type decl')) (hne : i ≠ j) :
    decl.head.range.Apart decl'.head.range := by
  -- whichever of the two comes first ends before the other one
  have key : ∀ {i j : Nat} {decl decl' : TypeDecl}, members[i]? = some (.type decl) →
      members[j]? = some (.type decl') → i < j → decl.head.range.Apart decl'.head.range := by
    intro i j decl decl' hi hj hlt
    obtain ⟨hi', hi⟩ := List.getElem?_eq_some_iff.1 hi
    obtain ⟨hj', hj⟩ := List.getElem?_eq_some_iff.1 hj
    have hbefore := List.pairwise_iff_getElem.1 h i j hi' hj' hlt
    rw [hi, hj] at hbefore
    obtain ⟨lo, mid, hi, hleft, hright⟩ := hbefore (Or.inl True.intro)
    exact TextRange.apart_of_liesIn (LieIn.type hleft) (LieIn.type hright)
  rcases Nat.lt_or_gt_of_ne hne with hlt | hgt
  · exact key hi hj hlt
  · exact (key hj hi hgt).symm

/-- **Two declarations inside one declaration** are one inside the other or apart. -/
theorem TypeDecl.apart_of_at? {decl inner inner' : TypeDecl}
    (h : ReadIn text lo hi (Walk.typeDecl decl)) {path path' : List Nat}
    (hat : decl.at? path = some inner) (hat' : decl.at? path' = some inner') :
    path <+: path' ∨ path' <+: path ∨ inner.head.range.Apart inner'.head.range := by
  induction path generalizing decl path' with
  | nil => exact .inl List.nil_prefix
  | cons i below ih =>
    cases path' with
    | nil => exact .inr (.inl List.nil_prefix)
    | cons j below' =>
      rw [TypeDecl.at?] at hat hat'
      split at hat
      next member hmember =>
        split at hat'
        next member' hmember' =>
          have hread : ∀ {k : Nat} {m : TypeDecl}, decl.members[k]? = some (.type m) →
              ReadIn text lo hi (Walk.typeDecl m) := fun hm node hnode =>
            h node (Walk.member_subset (List.mem_of_getElem? hm) hnode)
          by_cases hij : i = j
          · subst hij
            obtain rfl : member = member' := by
              simpa using hmember.symm.trans hmember'
            simpa [List.cons_prefix_cons] using ih (hread hmember) hat hat'
          · obtain ⟨opening, hlaid⟩ := (h _ (Walk.type_mem decl)).ordered
            have hapart := apart_of_before hlaid.apart hmember hmember' hij
            exact .inr (.inr (hapart.of_liesIn ((hread hmember).liesIn_of_at? hat)
              ((hread hmember').liesIn_of_at? hat')))
        next => cases hat'
      next => cases hat

/-- **Two declarations of a unit** are one inside the other or apart. -/
theorem CompilationUnit.apart_of_at? {unit : CompilationUnit} (h : unit.ReadIn text border hi)
    {decl decl' : TypeDecl} {path path' : List Nat} (hat : unit.at? path = some decl)
    (hat' : unit.at? path' = some decl') :
    path <+: path' ∨ path' <+: path ∨ decl.head.range.Apart decl'.head.range := by
  cases path with
  | nil => exact .inl List.nil_prefix
  | cons i below =>
    cases path' with
    | nil => exact .inr (.inl List.nil_prefix)
    | cons j below' =>
      obtain ⟨top, htop, hat⟩ := Option.bind_eq_some_iff.1 hat
      obtain ⟨top', htop', hat'⟩ := Option.bind_eq_some_iff.1 hat'
      have hread : ∀ {k : Nat} {m : TypeDecl}, unit.types[k]? = some m →
          SourceSearch.ReadIn text border hi (Walk.typeDecl m) := fun hm node hnode =>
        h.nodes node (List.mem_flatMap.2 ⟨_, List.mem_of_getElem? hm, hnode⟩)
      by_cases hij : i = j
      · subst hij
        obtain rfl : top = top' := Option.some.inj (htop.symm.trans htop')
        simpa [List.cons_prefix_cons] using TypeDecl.apart_of_at? (hread htop) hat hat'
      · have hmember : ∀ {k : Nat} {m : TypeDecl}, unit.types[k]? = some m →
            (unit.types.map Member.type)[k]? = some (.type m) := fun hm => by
          rw [List.getElem?_map, hm]
          rfl
        have hapart := apart_of_before h.types.apart (hmember htop) (hmember htop') hij
        exact .inr (.inr (hapart.of_liesIn ((hread htop).liesIn_of_at? hat)
          ((hread htop').liesIn_of_at? hat')))

/-- What is inside a declaration inside another one is inside the other one. -/
theorem TypeDecl.at?_append {decl inner : TypeDecl} {path : List Nat} (below : List Nat)
    (hat : decl.at? path = some inner) : decl.at? (path ++ below) = inner.at? below := by
  induction path generalizing decl with
  | nil => rw [Option.some.inj hat, List.nil_append]
  | cons index path ih =>
    rw [TypeDecl.at?] at hat
    rw [List.cons_append, TypeDecl.at?]
    split at hat
    next => exact ih hat
    next => cases hat

theorem CompilationUnit.at?_append {unit : CompilationUnit} {inner : TypeDecl} {path : List Nat}
    (below : List Nat) (hat : unit.at? path = some inner) :
    unit.at? (path ++ below) = inner.at? below := by
  cases path with
  | nil => cases hat
  | cons first path =>
    obtain ⟨top, htop, hat⟩ := Option.bind_eq_some_iff.1 hat
    rw [List.cons_append, CompilationUnit.at?, htop]
    exact TypeDecl.at?_append below hat

/-! ## Outer types -/

namespace DeclaredType

/-- Of the listed types, the one that another type is declared in. -/
structure IsOuterOf (types : List DeclaredType) (outer inner : DeclaredType) : Prop where
  mem : outer ∈ types
  name : inner.outer = some outer.qualifiedName
  path : ∃ index, inner.path = outer.path ++ [index]

theorem IsOuterOf.mono {types types' : List DeclaredType} {outer inner : DeclaredType}
    (h : IsOuterOf types outer inner) (hsub : types ⊆ types') : IsOuterOf types' outer inner :=
  ⟨hsub h.mem, h.name, h.path⟩

variable {origin : Origin} {package : String}

mutual

/-- Of the types of a declaration, all but its own have their outer type among them. -/
theorem exists_isOuterOf_collectDecl :
    ∀ (decl : TypeDecl) {outer : Option String} {qualified : String} {path : List Nat}
      {info : DeclaredType}, info ∈ collectDecl origin package outer qualified path decl →
      info.outer = outer ∧ info.path = path ∨
        ∃ around, IsOuterOf (collectDecl origin package outer qualified path decl) around info
  | ⟨head, members⟩, outer, qualified, path, info, hinfo => by
    rw [collectDecl] at hinfo ⊢
    rcases List.mem_cons.1 hinfo with rfl | hinfo
    · exact .inl ⟨rfl, rfl⟩
    · rcases exists_isOuterOf_collectMembers members hinfo with ⟨houter, hpath⟩ | ⟨around, h⟩
      · exact .inr ⟨_, List.mem_cons_self, houter, hpath⟩
      · exact .inr ⟨around, h.mono (List.subset_cons_self _ _)⟩

theorem exists_isOuterOf_collectMembers :
    ∀ (members : List Member) {outer : String} {path : List Nat} {index : Nat}
      {info : DeclaredType}, info ∈ collectMembers origin package outer path index members →
      info.outer = some outer ∧ (∃ i, info.path = path ++ [i]) ∨
        ∃ around, IsOuterOf (collectMembers origin package outer path index members) around info
  | [], _, _, _, _, hinfo => by
    rw [collectMembers] at hinfo
    cases hinfo
  | .type ⟨head, inner⟩ :: rest, outer, path, index, info, hinfo => by
    rw [collectMembers] at hinfo ⊢
    rcases List.mem_append.1 hinfo with hinfo | hinfo
    · rcases exists_isOuterOf_collectDecl ⟨head, inner⟩ hinfo with ⟨houter, hpath⟩ | ⟨around, h⟩
      · exact .inl ⟨houter, index, hpath⟩
      · exact .inr ⟨around, h.mono (List.subset_append_left _ _)⟩
    · exact (exists_isOuterOf_collectMembers rest hinfo).imp_right fun ⟨around, h⟩ =>
        ⟨around, h.mono (List.subset_append_right _ _)⟩
  | .field _ _ :: rest, _, _, _, _, hinfo => by
    rw [collectMembers] at hinfo ⊢
    exact exists_isOuterOf_collectMembers rest hinfo
  | .method _ _ :: rest, _, _, _, _, hinfo => by
    rw [collectMembers] at hinfo ⊢
    exact exists_isOuterOf_collectMembers rest hinfo
  | .initializer _ _ _ :: rest, _, _, _, _, hinfo => by
    rw [collectMembers] at hinfo ⊢
    exact exists_isOuterOf_collectMembers rest hinfo

end

variable {unit : CompilationUnit}

/-- **A type of a unit** is declared in none and stands at the top, or its outer type is listed. -/
theorem exists_isOuterOf {info : DeclaredType} (hinfo : info ∈ collectTypes unit origin) :
    info.outer = none ∧ (∃ index, info.path = [index]) ∨
      ∃ around, IsOuterOf (collectTypes unit origin) around info := by
  unfold collectTypes at hinfo ⊢
  obtain ⟨infos, hinfos, hinfo⟩ := List.mem_flatten.1 hinfo
  obtain ⟨⟨decl, index⟩, hdecl, rfl⟩ := List.mem_map.1 hinfos
  rcases exists_isOuterOf_collectDecl decl hinfo with ⟨houter, hpath⟩ | ⟨around, h⟩
  · exact .inl ⟨houter, index, hpath⟩
  · exact .inr ⟨around, h.mono fun _ hother => List.mem_flatten.2 ⟨_, hinfos, hother⟩⟩

/-- The declaration at the path of a listed type has the name that the type has. -/
theorem exists_decl?_nameRange {info : DeclaredType} (hinfo : info ∈ collectTypes unit origin) :
    ∃ decl, info.decl? unit = some decl ∧ decl.head.name.range = info.nameRange := by
  obtain ⟨decl, hdecl, heq⟩ := exists_decl? hinfo
  refine ⟨decl, hdecl, ?_⟩
  rw [heq]
  rfl

/-- The declaration of a listed type lies around its own name. -/
theorem owns_nameRange {decl : TypeDecl} (h : unit.ReadIn text border hi)
    {info : DeclaredType} (hdecl : info.decl? unit = some decl) :
    decl.Owns decl.head.name.range := by
  obtain ⟨opening, hlaid⟩ := (h.nodes _ (walk_subset hdecl (Walk.type_mem decl))).ordered
  exact hlaid.owns_of_head hlaid.name

/-! ## The order of the list -/

/-- **Of two listed types** the later one has a name of its own and is not around the first. -/
theorem pairwise_not_isPrefix (h : unit.ReadIn text border hi) (origin : Origin) :
    (collectTypes unit origin).Pairwise fun info other =>
      info.nameRange ≠ other.nameRange ∧ ¬other.path <+: info.path := by
  refine (pairwise_collectTypes h origin).imp_of_mem fun {info other} hinfo hother hkeeps => ?_
  obtain ⟨decl, hdecl, hname⟩ := exists_decl?_nameRange hinfo
  obtain ⟨decl', hdecl', hname'⟩ := exists_decl?_nameRange hother
  have howns := owns_nameRange h hdecl
  have hnot : other.encloses unit decl.head.name.range = false := hkeeps decl _ hdecl howns
  refine ⟨fun heq => ?_, fun hstarts => ?_⟩
  · -- the other type encloses its own name
    have hencloses := encloses_of_owns hdecl' (owns_nameRange h hdecl')
    rw [hname', ← heq, ← hname, hnot] at hencloses
    cases hencloses
  · -- what is around the declaration is around its name
    obtain ⟨below, hpath⟩ := hstarts
    have hat : decl'.at? below = some decl := by
      rw [decl?_eq] at hdecl hdecl'
      rw [← CompilationUnit.at?_append below hdecl', hpath, hdecl]
    have hread : ReadIn text border hi (Walk.typeDecl decl') := fun node hnode =>
      h.nodes node (walk_subset hdecl' hnode)
    have hlies := hread.liesIn_of_at? hat
    rw [encloses, hdecl', Option.any_some, TextRange.encloses, decide_eq_false_iff_not] at hnot
    exact hnot ⟨Nat.le_trans hlies.start_le howns.lies.start_le,
      Nat.le_trans howns.lies.le_stop hlies.le_stop⟩

/-- **An outer type** is listed before the types that are inside it. -/
theorem mem_before_of_isPrefix (h : unit.ReadIn text border hi)
    {before after : List DeclaredType} {outer inner : DeclaredType}
    (htypes : collectTypes unit origin = before ++ inner :: after)
    (hmem : outer ∈ collectTypes unit origin) (hstarts : outer.path <+: inner.path)
    (hne : outer ≠ inner) : outer ∈ before := by
  have horder := pairwise_not_isPrefix h origin
  rw [htypes] at hmem horder
  obtain ⟨-, horder, -⟩ := List.pairwise_append.1 horder
  rcases List.mem_append.1 hmem with hmem | hmem
  · exact hmem
  · obtain ⟨hself, -⟩ := List.pairwise_cons.1 horder
    rcases List.mem_cons.1 hmem with rfl | hmem
    · exact absurd rfl hne
    · exact absurd hstarts (hself outer hmem).2

/-- Listed types that stand at one path are one type. -/
theorem eq_of_path_eq (h : unit.ReadIn text border hi) {info other : DeclaredType}
    (hinfo : info ∈ collectTypes unit origin) (hother : other ∈ collectTypes unit origin)
    (hpath : info.path = other.path) : info = other := by
  by_contra hne
  obtain ⟨before, after, htypes⟩ := List.append_of_mem hother
  have hbefore := mem_before_of_isPrefix h htypes hinfo (hpath ▸ List.prefix_rfl) hne
  have horder := pairwise_not_isPrefix h origin
  rw [htypes] at horder
  exact ((List.pairwise_append.1 horder).2.2 info hbefore other List.mem_cons_self).2
    (hpath ▸ List.prefix_rfl)

/-- **A type inside another one** has that one among its outer types. -/
theorem reflTransGen_of_isPrefix (h : unit.ReadIn text border hi) {info other : DeclaredType}
    (hinfo : info ∈ collectTypes unit origin) (hother : other ∈ collectTypes unit origin)
    (hstarts : other.path <+: info.path) :
    ReflTransGen (IsOuterOf (collectTypes unit origin)) other info := by
  obtain ⟨below, hpath⟩ := hstarts
  -- the last index of the path is that of the type in its outer type
  induction below using List.reverseRecOn generalizing info with
  | nil =>
    rw [List.append_nil] at hpath
    rw [eq_of_path_eq h hother hinfo hpath]
  | append_singleton below index ih =>
    rcases exists_isOuterOf hinfo with ⟨-, i, htop⟩ | ⟨around, haround⟩
    · -- the other type has no path then
      obtain ⟨decl, hdecl, -⟩ := exists_decl? hother
      have hnil : other.path = [] := by
        have hlength := congrArg List.length (hpath.trans htop)
        rw [List.length_append, List.length_append, List.length_singleton,
          List.length_singleton] at hlength
        exact List.length_eq_zero_iff.1 (by omega)
      rw [decl?_eq, hnil] at hdecl
      cases hdecl
    · obtain ⟨i, hi⟩ := haround.path
      have hbelow : other.path ++ below = around.path := by
        rw [hi, ← List.append_assoc] at hpath
        exact (List.append_inj' hpath rfl).1
      exact (ih haround.mem hbelow).tail haround

end DeclaredType

/-! ## The innermost type -/

variable {id : FileId} {project path : String} {unit : CompilationUnit}

/-- Behind the last element that passes a test there is none that does. -/
theorem exists_of_getLast?_filter {α : Type} {test : α → Bool} {as : List α} {a : α}
    (h : (as.filter test).getLast? = some a) : ∃ before after, as = before ++ a :: after ∧
      test a = true ∧ ∀ b ∈ after, test b = false := by
  obtain ⟨passed, hpassed⟩ := List.getLast?_eq_some_iff.1 h
  obtain ⟨before, rest, rfl, -, hrest⟩ := List.filter_eq_append_iff.1 hpassed
  obtain ⟨skipped, after, rfl, -, ha, hafter⟩ := List.filter_eq_cons_iff.1 hrest
  refine ⟨before ++ skipped, after, (List.append_assoc _ _ _).symm, ha, fun b hb => ?_⟩
  exact eq_false_of_ne_true (List.filter_eq_nil_iff.1 hafter b hb)

/-- **The last type around a range** that is not empty has every type around it among its outer
types, or is it. -/
theorem DeclaredType.reflTransGen_of_getLast? {origin : Origin}
    (h : unit.ReadIn text border hi) {range : TextRange} (hpos : range.start < range.stop)
    {info other : DeclaredType}
    (hlast : ((collectTypes unit origin).filter (encloses unit range)).getLast? = some info)
    (hother : other ∈ collectTypes unit origin) (haround : other.encloses unit range = true) :
    ReflTransGen (IsOuterOf (collectTypes unit origin)) other info := by
  obtain ⟨before, after, htypes, hinfo, hafter⟩ := exists_of_getLast?_filter hlast
  have hmem : info ∈ collectTypes unit origin := htypes ▸ List.mem_append_right _ List.mem_cons_self
  obtain ⟨decl, hdecl, hencloses⟩ := (Option.any_eq_true _ _).1 hinfo
  obtain ⟨decl', hdecl', hencloses'⟩ := (Option.any_eq_true _ _).1 haround
  rw [decl?_eq] at hdecl hdecl'
  rcases CompilationUnit.apart_of_at? h hdecl' hdecl with hstarts | hstarts | hapart
  · exact reflTransGen_of_isPrefix h hmem hother hstarts
  · -- the other type would be listed behind the last one
    have horder := pairwise_not_isPrefix h origin
    rw [htypes] at horder hother
    rcases List.mem_append.1 hother with hbefore | hrest
    · exact absurd hstarts
        ((List.pairwise_append.1 horder).2.2 other hbefore info List.mem_cons_self).2
    · rcases List.mem_cons.1 hrest with rfl | hbehind
      · exact .refl
      · rw [hafter other hbehind] at haround
        cases haround
  · rw [hapart.not_encloses_both hpos hencloses'] at hencloses
    cases hencloses

/-- **The types of a file** that parses stand for the declarations they were collected from, told
apart by the ranges of their names, and each is listed behind its outer type. For a range that is
not empty, no type is returned exactly if no declaration is around the range; the type that is
returned is around it, and every other one around it is one of its outer types. -/
theorem SourceFile.enclosingType?_innermost {id : FileId} {project path : String}
    (hparsed : parse text = .ok unit) :
    let file := SourceFile.ofText id project path text
    (∀ info ∈ file.types, ∃ decl, info.decl? unit = some decl ∧
      decl.head.name.range = info.nameRange ∧
      info = .ofDecl (.source id) info.package info.outer info.qualifiedName info.path decl) ∧
    (file.types.map (·.nameRange)).Nodup ∧
    (∀ before info after, file.types = before ++ info :: after → ∀ name, info.outer = some name →
      ∃ outer ∈ before, outer.qualifiedName = name ∧
        DeclaredType.IsOuterOf file.types outer info) ∧
    ∀ range : TextRange, range.start < range.stop →
      (file.enclosingType? range = none ↔
        ∀ info ∈ file.types, info.encloses unit range = false) ∧
      ∀ key, file.enclosingType? range = some key →
        ∃ info ∈ file.types, info.key = key ∧ info.encloses unit range = true ∧
          ∀ other ∈ file.types, other.encloses unit range = true →
            ReflTransGen (DeclaredType.IsOuterOf file.types) other info := by
  intro file
  have htypes : file.types = collectTypes unit (.source id) := by
    simp only [file, SourceFile.ofText, hparsed]
  have hunit : file.unit? = some unit := by
    simp only [file, SourceFile.ofText, SourceFile.unit?, hparsed]
  obtain ⟨border, hi, hread⟩ := parse_readIn hparsed
  rw [htypes]
  refine ⟨fun info hinfo => ?_, ?_, fun before info after hsplit name hname => ?_,
    fun range hpos => ?_⟩
  · obtain ⟨decl, hdecl, heq⟩ := DeclaredType.exists_decl? hinfo
    exact ⟨decl, hdecl, congrArg DeclaredType.nameRange heq.symm, heq⟩
  · exact List.pairwise_map.2
      ((DeclaredType.pairwise_not_isPrefix hread _).imp fun hdistinct => hdistinct.1)
  · have hinfo : info ∈ collectTypes unit (.source id) :=
      hsplit ▸ List.mem_append_right _ List.mem_cons_self
    rcases DeclaredType.exists_isOuterOf hinfo with ⟨htop, -⟩ | ⟨outer, houter⟩
    · rw [htop] at hname
      cases hname
    · obtain ⟨index, hpath⟩ := houter.path
      refine ⟨outer, ?_, Option.some.inj (houter.name.symm.trans hname), houter⟩
      refine DeclaredType.mem_before_of_isPrefix hread hsplit houter.mem
        (hpath ▸ List.prefix_append _ _) fun heq => ?_
      simp [heq] at hpath
  · have henclosing : file.enclosingType? range =
        ((collectTypes unit (.source id)).filter (·.encloses unit range)).getLast?.map (·.key) := by
      rw [enclosingType?, hunit, htypes]
      rfl
    rw [henclosing]
    refine ⟨?_, fun key hkey => ?_⟩
    · rw [Option.map_eq_none_iff, List.getLast?_eq_none_iff, List.filter_eq_nil_iff]
      simp only [Bool.not_eq_true]
    · obtain ⟨info, hlast, rfl⟩ := Option.map_eq_some_iff.1 hkey
      obtain ⟨hmem, haround⟩ := List.mem_filter.1 (List.mem_of_getLast? hlast)
      exact ⟨info, hmem, rfl, haround, fun other hother hencloses =>
        DeclaredType.reflTransGen_of_getLast? hread hpos hlast hother hencloses⟩

/-- A class with a class in it, and one behind it. -/
def nestedText : String := "class A \x7b class B \x7b void m() \x7b\x7d \x7d \x7d class C \x7b\x7d"

/-- The method of the inner class has both classes around it, what goes on into the last class has
none. -/
theorem SourceFile.enclosingType?_nestedText : ∃ unit, parse nestedText = .ok unit ∧
    let file := SourceFile.ofText ⟨0⟩ "P" "A.java" nestedText
    (∃ info ∈ file.types, info.key = ⟨.source ⟨0⟩, "A.B"⟩ ∧
      info.encloses unit (.upTo 25 26) = true ∧
      ∀ other ∈ file.types, other.encloses unit (.upTo 25 26) = true →
        ReflTransGen (DeclaredType.IsOuterOf file.types) other info) ∧
    ∀ info ∈ file.types, info.encloses unit (.upTo 25 40) = false := by
  have hfile : (SourceFile.ofText ⟨0⟩ "P" "A.java" nestedText).unit?.isSome = true := by
    decide +kernel
  obtain ⟨unit, hunit⟩ := Option.isSome_iff_exists.1 hfile
  have hparsed : parse nestedText = .ok unit := parse_of_unit? hunit
  obtain ⟨-, -, -, hinnermost⟩ :=
    @enclosingType?_innermost nestedText unit ⟨0⟩ "P" "A.java" hparsed
  obtain ⟨-, hinner⟩ := hinnermost (.upTo 25 26) (by decide)
  obtain ⟨hnone, -⟩ := hinnermost (.upTo 25 40) (by decide)
  exact ⟨unit, hparsed, hinner _ (by decide +kernel), hnone.1 (by decide +kernel)⟩

end SourceSearch
