import Retarget.Command
import Retarget.Proofs.Matching
import Retarget.Proofs.Run

/-!
# What a check of a manifest tells about passes

A check resolves the members of the substituted classes and looks no further. A pass over the access
of such a member resolves it in the same way, but then builds the access anew, through an object
whose type was resolved on its own. So a manifest that passes the check has a member to take the
place of each declared one, and the access of a member comes through a pass exactly if it can follow
the member there: the two are static or not alike, and the retyped object has the member that is
accessed.

Both can fail. Nothing compares the flags of the two members, and a member that stays on its type
because the type is replaced by one of the same name loses its object to the replacement.

## Key results

- `Manifest.checkPairs_resolutions`: a check without failure resolves every member
- `Manifest.accessSucceeds_iff`: when the access of a member comes through a pass
- `Command.runCheck_predicts`: what passing the check says of accesses
- `Sample.check_not_sufficient`: manifests that pass the check although accesses fail
-/

namespace Retarget

/-! ## The check -/

namespace Manifest

variable {m : Manifest}

/-- Members are resolved one after the other; without a failure, all of them are. -/
theorem resolveMembers_resolutions {members : List Member}
    (h : (resolveMembers m members).2 = none) {member : Member} (hmem : member ∈ members) :
    ∃ target, m.substitution.resolveMember m.catalog member = .ok target ∧
      ⟨member, target⟩ ∈ (resolveMembers m members).1 := by
  -- The list stops at the first failure, so a report without one has gone through all of it.
  induction members with
  | nil => cases hmem
  | cons first rest ih =>
    cases hfirst : m.substitution.resolveMember m.catalog first with
    | error e => simp [resolveMembers, hfirst] at h
    | ok target =>
      simp only [resolveMembers, hfirst] at h ⊢
      rcases List.mem_cons.mp hmem with rfl | hmem
      · exact ⟨target, hfirst, List.mem_cons_self⟩
      · obtain ⟨target', htarget', hdone⟩ := ih h hmem
        exact ⟨target', htarget', List.mem_cons_of_mem _ hdone⟩

/-- Pairs are checked one after the other; without a failure, all members of all sources are
    resolved. -/
theorem checkPairs_resolutions {pairs : List (Ty × Ty)} (h : (checkPairs m pairs).failure = none)
    {pair : Ty × Ty} (hpair : pair ∈ pairs) {members : List Member}
    (hmembers : membersOf? m.catalog pair.1 = some members) {member : Member}
    (hmem : member ∈ members) :
    ∃ target, m.substitution.resolveMember m.catalog member = .ok target ∧
      ⟨member, target⟩ ∈ (checkPairs m pairs).resolutions := by
  induction pairs with
  | nil => cases hpair
  | cons first rest ih =>
    cases hfirst : membersOf? m.catalog first.1 with
    | none =>
      -- A source without a class is passed over, and is not the one that is asked about.
      simp only [checkPairs, hfirst] at h ⊢
      rcases List.mem_cons.mp hpair with rfl | hpair
      · rw [hmembers] at hfirst
        cases hfirst
      · exact ih h hpair
    | some ofFirst =>
      rcases hdone : resolveMembers m ofFirst with ⟨done, _ | e⟩
      · simp only [checkPairs, hfirst, hdone] at h ⊢
        rcases List.mem_cons.mp hpair with rfl | hpair
        · -- The source that is asked about: its members are the ones just resolved.
          obtain rfl : ofFirst = members := Option.some.inj (hfirst.symm.trans hmembers)
          obtain ⟨target, htarget, hmem'⟩ :=
            resolveMembers_resolutions (congrArg Prod.snd hdone) hmem
          rw [hdone] at hmem'
          exact ⟨target, htarget, List.mem_append_left _ hmem'⟩
        · -- A later source, whose resolutions are reported behind these.
          obtain ⟨target, htarget, hmem'⟩ := ih h hpair
          exact ⟨target, htarget, List.mem_append_right _ hmem'⟩
      · simp [checkPairs, hfirst, hdone] at h

/-- Every member that a class declares is seen from each of its types. -/
theorem exists_member_of_declared {cat : Catalog} {t : Ty} {c : ClassDecl} {kind : MemberKind}
    {d : MemberDecl} (hclass : cat.class? t.fullName = some c) (hd : (kind, d) ∈ c.members) :
    ∃ member members, cat.member? kind t d.name = some member ∧
      membersOf? cat t = some members ∧ member ∈ members := by
  have hkind : d ∈ c.ofKind kind := by
    simp only [ClassDecl.members, List.mem_append, List.mem_map, Prod.mk.injEq] at hd
    rcases hd with ⟨_, hd, rfl, rfl⟩ | ⟨_, hd, rfl, rfl⟩
    · exact hd
    · exact hd
  -- An earlier declaration of the name may hide this one.
  obtain ⟨d', hd'⟩ : ∃ d', (c.ofKind kind).find? (·.name = d.name) = some d' :=
    Option.isSome_iff_exists.mp (List.find?_isSome.mpr ⟨d, hkind, by simp⟩)
  have hmember : cat.member? kind t d.name = some (Catalog.instantiate c t kind d') :=
    Catalog.member?_eq_some.mpr ⟨c, d', hclass, hd', rfl⟩
  refine ⟨_, _, hmember, by rw [membersOf?, hclass], ?_⟩
  exact List.mem_filterMap.mpr ⟨(kind, d), hd, hmember⟩

/-- A manifest has no say in the overriding of members. -/
theorem memberOverride_of_parse {text : String} (h : parse text = .ok m) :
    m.substitution.memberOverride = none := by
  unfold parse at h
  split at h
  · cases h
  · split at h
    · cases h
    · -- What is parsed is put together without an override, whatever the pairs are.
      obtain ⟨pairs, -, h⟩ := Build.except_bind_eq_ok.mp h
      obtain rfl := Except.ok.inj h
      rfl

end Manifest

/-- The exit code tells exactly whether there is a manifest and the check of it does not fail. -/
theorem Command.runCheck_code_eq_zero {path text : String} :
    (runCheck path (.ok text)).code = 0 ↔
      ∃ m, Manifest.parse text = .ok m ∧ m.check.failure = none := by
  cases hparse : Manifest.parse text with
  | error e => simp [runCheck, hparse]
  | ok m =>
    cases hfailure : m.check.failure with
    | some e => simp [runCheck, hparse, hfailure]
    | none => simp [runCheck, hparse, hfailure]

/-! ## Accesses in passes -/

namespace Build

variable {t : Ty} {m : Member} {name : Option String} {byRef : Bool} {n : Nat}

/-- The access of a member through a new parameter of a type, or without an object if the member is
    static. -/
def access (t : Ty) (m : Member) (name : Option String) (byRef : Bool) : Build Expr :=
  if m.isStatic then member none m
  else do member (some (← parameter t name byRef)) m

/-- A static member is accessed without an object, and nothing else is built. -/
theorem access_static (hstatic : m.isStatic = true) :
    access t m name byRef n = .ok (.member n none m, n + 1) := by
  rw [access, if_pos hstatic]
  exact member_eq_ok.mpr ⟨memberFault?_eq_none.mpr (by simp [hstatic]), rfl, rfl⟩

/-- A parameter of the declaring type has the member. -/
theorem access_instance (hstatic : m.isStatic = false) :
    access m.declaringType m name byRef n =
      .ok (.member (n + 1) (some (.parameter ⟨n, m.declaringType, name, byRef⟩)) m, n + 2) := by
  rw [access, if_neg (by simp [hstatic])]
  show member (some (.parameter ⟨n, m.declaringType, name, byRef⟩)) m (n + 1) = _
  refine member_eq_ok.mpr ⟨memberFault?_eq_none.mpr ?_, rfl, rfl⟩
  simp [hstatic, Expr.ty, Ty.assignableTo_refl]

end Build

namespace Pass

variable {s : Substitution} {cat : Catalog} {m target : Member}

/-- A pass over the access of a member that is resolved fails only for its object: for the object
    itself, or because the new member cannot be accessed through what becomes of the object. -/
theorem run_member_ok (htarget : s.resolveMember cat m = .ok target) {supply id : Nat}
    {object : Option Expr} :
    (∃ e', (Pass.run s cat supply (.member id object m)).result = .ok e') ↔
      ∃ object' st', (Expr.retargetOption s cat object).Returns ⟨supply, .empty, []⟩ object' st' ∧
        Build.memberFault? object' target = none := by
  constructor
  · rintro ⟨e', hrun⟩
    obtain ⟨object', st', m', n, hobject, hm', hbuild, -⟩ :=
      Expr.returns_memberAccess.mp (Pass.returns_of_result hrun)
    -- The pass resolves the member as the check did, so it builds the access of this very target.
    obtain rfl : target = m' := Except.ok.inj (htarget.symm.trans hm')
    exact ⟨object', st', hobject, (Build.member_eq_ok.mp hbuild).1⟩
  · rintro ⟨object', st', hobject, hfault⟩
    have hbuild : Build.member object' target st'.supply =
        .ok (.member st'.supply object' target, st'.supply + 1) :=
      Build.member_eq_ok.mpr ⟨hfault, rfl, rfl⟩
    have hreturns : (Expr.retarget s cat (.member id object m)).Returns ⟨supply, .empty, []⟩ _ _ :=
      Expr.returns_memberAccess.mpr ⟨object', st', target, _, hobject, htarget, hbuild, rfl⟩
    exact ⟨_, congrArg Pass.Report.result (Pass.run_eq_iff.mpr hreturns)⟩

/-- Without an object only the flag of the new member is left to fail. -/
theorem run_static_ok (htarget : s.resolveMember cat m = .ok target) {supply id : Nat} :
    (∃ e', (Pass.run s cat supply (.member id none m)).result = .ok e') ↔
      target.isStatic = true := by
  simp [run_member_ok htarget, Expr.returns_option_none, Build.memberFault?_eq_none]

/-- The type of a parameter is resolved on its own, and has to have the new member. -/
theorem run_instance_ok (htarget : s.resolveMember cat m = .ok target) {supply id : Nat}
    {p : Parameter} :
    (∃ e', (Pass.run s cat supply (.member id (some (.parameter p)) m)).result = .ok e') ↔
      target.isStatic = false ∧
        (s.resolve p.ty).assignableTo target.declaringType = true := by
  -- The parameter is met for the first time: nothing is recorded for it yet.
  rw [run_member_ok htarget]
  simp only [Expr.returns_option_some, Expr.returns_leaf (e := .parameter p) rfl,
    Memo.lookup?_empty, Build.memberFault?_eq_none]
  simp [Expr.replacement, Expr.ty]

end Pass

namespace Manifest

variable {m : Manifest} {r : Resolution}

/-- Whether the access of a member through a parameter of a type comes through a pass with the
    substitution of a manifest. -/
def AccessSucceeds (m : Manifest) (t : Ty) (member : Member) (name : Option String) (byRef : Bool)
    (supply : Nat) : Prop :=
  ∃ e n e', Build.access t member name byRef supply = .ok (e, n) ∧
    (Pass.run m.substitution m.catalog n e).result = .ok e'

/-- Whether accesses can follow a member to the one that takes its place: either both are static or
    neither is, and an object of the declaring type, once resolved, has the new member. -/
def CanFollow (m : Manifest) (r : Resolution) : Prop :=
  r.target.isStatic = r.member.isStatic ∧
    (r.member.isStatic = true ∨
      (m.substitution.resolve r.member.declaringType).assignableTo r.target.declaringType = true)

instance (m : Manifest) (r : Resolution) : Decidable (m.CanFollow r) :=
  inferInstanceAs (Decidable (_ ∧ _))

/-- Building the access is the same for every substitution, so a success only leaves the pass
    open. -/
theorem accessSucceeds_of_access {t : Ty} {member : Member} {name : Option String} {byRef : Bool}
    {supply n : Nat} {e : Expr} (h : Build.access t member name byRef supply = .ok (e, n)) :
    m.AccessSucceeds t member name byRef supply ↔
      ∃ e', (Pass.run m.substitution m.catalog n e).result = .ok e' := by
  simp [AccessSucceeds, h]

/-- The access of a resolved member comes through a pass exactly if it can follow the member. -/
theorem accessSucceeds_iff (h : m.substitution.resolveMember m.catalog r.member = .ok r.target)
    {name : Option String} {byRef : Bool} {supply : Nat} :
    m.AccessSucceeds r.member.declaringType r.member name byRef supply ↔ m.CanFollow r := by
  -- The old member decides whether there is an object, the new one whether there has to be.
  cases hstatic : r.member.isStatic with
  | true =>
    rw [accessSucceeds_of_access (Build.access_static hstatic), Pass.run_static_ok h]
    simp [CanFollow, hstatic]
  | false =>
    rw [accessSucceeds_of_access (Build.access_instance hstatic), Pass.run_instance_ok h]
    simp [CanFollow, hstatic]

/-- Unless the declaring type is replaced by another one that matches it, the new member is declared
    by the type that the object comes to have, and only the flags of the members count. -/
theorem canFollow_iff (hoverride : m.substitution.memberOverride = none)
    (htold : m.substitution.sameType (m.substitution.resolve r.member.declaringType)
        r.member.declaringType = true →
      m.substitution.resolve r.member.declaringType = r.member.declaringType)
    (h : m.substitution.resolveMember m.catalog r.member = .ok r.target) :
    m.CanFollow r ↔ r.target.isStatic = r.member.isStatic := by
  have hdeclaring : r.target.declaringType = m.substitution.resolve r.member.declaringType := by
    -- Either the declaring type stays, and the member with it, or the member is looked up by name
    -- in the type that replaces it.
    rcases (Substitution.resolveMember_eq_ok hoverride).mp h with ⟨hsame, htarget⟩ | ⟨-, htarget⟩
    · rw [htarget, htold hsame]
    · exact (Catalog.named?_spec htarget).1
  simp [CanFollow, hdeclaring, Ty.assignableTo_refl]

end Manifest

/-! ## What the check tells -/

/-- Whether the accesses of all members of all substituted classes come through passes. -/
def Manifest.AccessesSucceed (m : Manifest) : Prop :=
  ∀ pair ∈ m.substitution.pairs, ∀ c, m.catalog.class? pair.1.fullName = some c →
    ∀ kind d, (kind, d) ∈ c.members →
    ∀ member, m.catalog.member? kind pair.1 d.name = some member →
    ∀ name byRef supply, m.AccessSucceeds pair.1 member name byRef supply

/-- A manifest that passes the check has a member to take the place of each member of a substituted
    class, which the check reports. The access of the member comes through a pass exactly if it can
    follow the member there. It can if both members are static or neither is, unless types are
    matched by name and the class is replaced by another one of the same name. -/
theorem Command.runCheck_predicts {path text : String}
    (h : (runCheck path (.ok text)).code = 0) :
    ∃ m, Manifest.parse text = .ok m ∧
      ∀ pair ∈ m.substitution.pairs, ∀ c, m.catalog.class? pair.1.fullName = some c →
      ∀ kind d, (kind, d) ∈ c.members →
      ∃ r ∈ m.check.resolutions,
        m.catalog.member? kind pair.1 d.name = some r.member ∧
        m.substitution.resolveMember m.catalog r.member = .ok r.target ∧
        (∀ name byRef supply,
          m.AccessSucceeds pair.1 r.member name byRef supply ↔ m.CanFollow r) ∧
        ((m.substitution.mode = .exact ∨
            (m.substitution.sameType (m.substitution.resolve pair.1) pair.1 = true →
              m.substitution.resolve pair.1 = pair.1)) →
          (m.CanFollow r ↔ r.target.isStatic = r.member.isStatic)) := by
  obtain ⟨m, hparse, hfailure⟩ := runCheck_code_eq_zero.mp h
  refine ⟨m, hparse, fun pair hpair c hclass kind d hd => ?_⟩
  obtain ⟨member, members, hmember, hmembers, hmem⟩ :=
    Manifest.exists_member_of_declared hclass hd
  obtain ⟨target, htarget, hreported⟩ :=
    Manifest.checkPairs_resolutions hfailure hpair hmembers hmem
  obtain ⟨hdeclaring, -⟩ := Catalog.member?_spec hmember
  -- The resolution that the check reports for the member is the one that passes use.
  refine ⟨⟨member, target⟩, hreported, hmember, htarget, fun name byRef supply => ?_, fun h => ?_⟩
  · rw [← hdeclaring]
    exact Manifest.accessSucceeds_iff htarget
  · rw [← hdeclaring] at h
    apply Manifest.canFollow_iff (Manifest.memberOverride_of_parse hparse) _ htarget
    rcases h with hexact | htold
    · -- What matches exactly is equal.
      intro hsame
      simpa [Substitution.sameType, hexact] using hsame
    · exact htold

namespace Sample

/-- A manifest in which a class is replaced by one of the same name. -/
def namesakes : String :=
  "[[type]]\nname = \"V1.Item\"\n" ++
  "properties = [\x7bname = \"Id\", type = \"long\"\x7d]\n" ++
  "[[type]]\nname = \"V2.Item\"\n" ++
  "properties = [\x7bname = \"Id\", type = \"long\"\x7d]\n" ++
  "[[substitute]]\nfrom = \"V1.Item\"\nto = \"V2.Item\"\n"

/-- The same manifest with the classes told apart. -/
def exactNamesakes : String := "match_mode = \"exact\"\n" ++ namesakes

/-- A manifest in which a static field becomes one that is not. -/
def loosened : String :=
  "[[type]]\nname = \"Old\"\n" ++
  "fields = [\x7bname = \"Max\", type = \"long\", static = true\x7d]\n" ++
  "[[type]]\nname = \"New\"\n" ++
  "fields = [\x7bname = \"Max\", type = \"long\"\x7d]\n" ++
  "[[substitute]]\nfrom = \"Old\"\nto = \"New\"\n"

/-- What is decided of the manifest that a text spells. -/
theorem exists_parse {t : String} {P : Manifest → Prop} [DecidablePred P]
    (h : (Manifest.parse t).toOption.any (fun m => decide (P m)) = true) :
    ∃ m, Manifest.parse t = .ok m ∧ P m := by
  cases hparse : Manifest.parse t with
  | error e => simp [hparse, Except.toOption] at h
  | ok m => exact ⟨m, rfl, by simpa [hparse, Except.toOption] using h⟩

/-- Told apart, the namesakes pass the check, and the one access there is can follow. -/
theorem exists_exactNamesakes :
    ∃ m, Manifest.parse exactNamesakes = .ok m ∧ m.check.failure = none ∧
      m.check.resolutions.length = 1 ∧ ∀ r ∈ m.check.resolutions, m.CanFollow r :=
  exists_parse (by decide +kernel)

/-- Once the classes are told apart, the member comes through passes. -/
theorem exactNamesakes_predicted :
    (Command.runCheck "exact.toml" (.ok exactNamesakes)).code = 0 ∧
      ∃ m, Manifest.parse exactNamesakes = .ok m ∧ m.check.resolutions.length = 1 ∧
        m.AccessesSucceed := by
  obtain ⟨m, hparse, hfailure, hcount, hfollow⟩ := exists_exactNamesakes
  have hcode : (Command.runCheck "exact.toml" (.ok exactNamesakes)).code = 0 :=
    Command.runCheck_code_eq_zero.mpr ⟨m, hparse, hfailure⟩
  refine ⟨hcode, m, hparse, hcount, fun pair hpair c hclass kind d hd member hmember => ?_⟩
  obtain ⟨m', hparse', hpredicted⟩ := Command.runCheck_predicts hcode
  obtain rfl : m = m' := Except.ok.inj (hparse.symm.trans hparse')
  obtain ⟨r, hr, hmember', -, hsucceeds, -⟩ := hpredicted pair hpair c hclass kind d hd
  obtain rfl : member = r.member := Option.some.inj (hmember.symm.trans hmember')
  exact fun name byRef supply => (hsucceeds name byRef supply).mpr (hfollow r hr)

/-- Whether a manifest passes the check although a member has gone where accesses cannot follow. -/
def Misleads (m : Manifest) : Prop :=
  m.check.failure = none ∧
    ∃ pair ∈ m.substitution.pairs, ∃ c ∈ m.catalog.class? pair.1.fullName,
    ∃ decl ∈ c.members, ∃ member ∈ m.catalog.member? decl.1 pair.1 decl.2.name,
    ∃ target ∈ (m.substitution.resolveMember m.catalog member).toOption,
      ¬ m.CanFollow ⟨member, target⟩

instance (m : Manifest) : Decidable (Misleads m) :=
  inferInstanceAs (Decidable (_ ∧ _))

/-- A manifest that misleads passes the check although an access fails. -/
theorem Misleads.check_passes {path t : String} (h : ∃ m, Manifest.parse t = .ok m ∧ Misleads m) :
    (Command.runCheck path (.ok t)).code = 0 ∧
      ∃ m, Manifest.parse t = .ok m ∧ ¬ m.AccessesSucceed := by
  obtain ⟨m, hparse, hfailure, pair, hpair, c, hclass, ⟨kind, d⟩, hd, member, hmember, target,
    htarget, hstays⟩ := h
  refine ⟨Command.runCheck_code_eq_zero.mpr ⟨m, hparse, hfailure⟩, m, hparse, fun hall => ?_⟩
  have hresolved : m.substitution.resolveMember m.catalog member = .ok target := by
    cases hresult : m.substitution.resolveMember m.catalog member with
    | error e => simp [hresult, Except.toOption] at htarget
    | ok found => simpa [hresult, Except.toOption] using htarget
  have haccess := hall pair hpair c hclass kind d hd member hmember none false 0
  rw [← (Catalog.member?_spec hmember).1] at haccess
  exact hstays ((Manifest.accessSucceeds_iff hresolved).mp haccess)

/-- The check looks neither at the flags of the members nor at the objects of accesses: these two
    manifests pass it although an access fails. -/
theorem check_not_sufficient :
    ((Command.runCheck "loosened.toml" (.ok loosened)).code = 0 ∧
      ∃ m, Manifest.parse loosened = .ok m ∧ ¬ m.AccessesSucceed) ∧
    (Command.runCheck "namesakes.toml" (.ok namesakes)).code = 0 ∧
      ∃ m, Manifest.parse namesakes = .ok m ∧ ¬ m.AccessesSucceed := by
  have hloosened : ∃ m, Manifest.parse loosened = .ok m ∧ Misleads m :=
    exists_parse (by decide +kernel)
  have hnamesakes : ∃ m, Manifest.parse namesakes = .ok m ∧ Misleads m :=
    exists_parse (by decide +kernel)
  exact ⟨Misleads.check_passes hloosened, Misleads.check_passes hnamesakes⟩

end Sample

end Retarget
