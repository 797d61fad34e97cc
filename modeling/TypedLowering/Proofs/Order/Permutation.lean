import TypedLowering.Proofs.Lowering.Symbols
import TypedLowering.Proofs.Options.Indifference
import TypedLowering.Proofs.Order.Reordered

/-!
The order of the entry points makes no difference to what is in the module. Compilation succeeds in one
order if it does in another; then the same functions are declared and defined, with the same calls in
the definitions, so as many requests have been served.
-/
namespace TypedLowering
set_option autoImplicit false
open Ssa

/-! ## Lists -/

/-- Lists without duplicate keys agree up to order if they have the same keys and the same at each
key. -/
theorem perm_map_of_keys {α β κ : Type} {l l' : List α} (key : α → κ) {g g' : α → β}
    (hl : (l.map key).Nodup) (hl' : (l'.map key).Nodup) (h : ∀ a ∈ l, ∃ a' ∈ l', key a' = key a)
    (h' : ∀ a' ∈ l', ∃ a ∈ l, key a' = key a)
    (hg : ∀ a ∈ l, ∀ a' ∈ l', key a' = key a → g' a' = g a) : (l'.map g').Perm (l.map g) := by
  have hpairs : (l'.map fun a => (key a, g' a)).Perm (l.map fun a => (key a, g a)) := by
    refine (List.perm_ext_iff_of_nodup (.of_map Prod.fst ?_) (.of_map Prod.fst ?_)).mpr fun b => ?_
    · rwa [List.map_map]
    · rwa [List.map_map]
    · rw [List.mem_map, List.mem_map]
      constructor
      · rintro ⟨a', ha', rfl⟩
        obtain ⟨a, ha, hkey⟩ := h' a' ha'
        exact ⟨a, ha, by rw [hkey, hg a ha a' ha' hkey]⟩
      · rintro ⟨a, ha, rfl⟩
        obtain ⟨a', ha', hkey⟩ := h a ha
        exact ⟨a', ha', by rw [hkey, hg a ha a' ha' hkey]⟩
  have hsnd := hpairs.map Prod.snd
  rwa [List.map_map, List.map_map] at hsnd

/-- Images of lists that agree up to order agree up to order. -/
theorem perm_of_forall₂ {α β : Type} {R : α → β → Prop} (hR : ∀ a b b', R a b → R a b' → b = b')
    {l l' : List α} {m m' : List β} (hl : l'.Perm l) (h : List.Forall₂ R l m)
    (h' : List.Forall₂ R l' m') : m'.Perm m := by
  obtain ⟨m'', h'', hm⟩ := List.perm_comp_forall₂ hl h
  rwa [List.right_unique_forall₂' (fun a b b' => hR a b b') h' h'']

namespace Ssa.Module

theorem mem_functions {m : Module} {f : Function} :
    f ∈ m.functions.toList ↔ ∃ id, m.function? id = some f := by
  rw [List.mem_iff_getElem?]
  constructor
  · rintro ⟨i, hi⟩
    exact ⟨⟨i⟩, Array.getElem?_toList.symm.trans hi⟩
  · rintro ⟨id, hid⟩
    exact ⟨id.index, Array.getElem?_toList.trans hid⟩

end Ssa.Module

/-! ## Modules -/

namespace Compiler.Reordered

variable {T : StaticType → Prop} {depth depth' : Nat} {l l' : List FuncId} {c c' : Compiler}
  (h : Reordered T depth depth' l l' c c')

include h

theorem exports_perm : c'.unit.module.exportedSymbols.Perm c.unit.module.exportedSymbols := by
  have hsimilar := h.replay.similar
  have hexports := h.recorded'.exports
  rw [hsimilar.compiles_eq] at hexports
  refine perm_of_forall₂ (fun _ _ _ he he' => he.unique he') (h.perm.filter _) h.recorded.exports
    (hexports.imp fun _ _ he => hsimilar.symm.exportedAs he)

variable {i j : FunctionId} {f f' : Function}

/-- Definitions of one name have the same calls. -/
theorem calledNames_eq (hf : c.unit.module.function? i = some f)
    (hf' : c'.unit.module.function? j = some f') (hname : f'.name = f.name) :
    c'.unit.module.calledNames f' = c.unit.module.calledNames f := by
  have hr := h.recorded.regular
  have hr' := h.recorded'.regular
  have bare {m : Module} {k : Function} (hk : k.blocks = #[]) : m.calledNames k = [] := by
    have hlisted : k.listed = [] := by rw [Function.listed, hk]; rfl
    rw [Module.calledNames, Function.callees_of_listed_eq_nil hlisted]
    rfl
  cases hreserved : Mangling.isReserved f.name with
  | false =>
    have hdecl : f.isDeclaration = true := by rw [hr.kind hf, hreserved]; rfl
    have hdecl' : f'.isDeclaration = true := by rw [hr'.kind hf', hname, hreserved]; rfl
    rw [bare (hr.bare hf hdecl), bare (hr'.bare hf' hdecl')]
  | true =>
    have hi := hr.definition.mpr ⟨hreserved, f, hf, rfl⟩
    have hj := hr'.definition.mpr ⟨hreserved, f', hf', hname⟩
    obtain ⟨r, hsymbol, hin⟩ := h.recorded.records hi
    obtain ⟨r', hsymbol', hin'⟩ := h.recorded'.records hj
    obtain ⟨g, g', hg, hg', hbody⟩ := h.sameBody hin hin' (hsymbol'.trans hsymbol.symm)
    rw [r.function_after] at hg
    rw [r'.function_after] at hg'
    cases (hsymbol ▸ hin.table).symm.trans hi
    cases (hsymbol' ▸ hin'.table).symm.trans hj
    rw [hin.calledNames_eq h.replay.calls hg hf, hin'.calledNames_eq h.replay'.calls hg' hf',
      hbody.calledNames_eq]

/-- Functions of one name have the same signature and the same linkage. -/
theorem heading_eq (hf : c.unit.module.function? i = some f)
    (hf' : c'.unit.module.function? j = some f') (hname : f'.name = f.name) :
    f'.heading = f.heading ∧ f'.linkage = f.linkage := by
  have hheading : f'.heading = f.heading :=
    (h.within.heading_eq h.recorded.regular.unique hf hf' hname).symm
  refine ⟨hheading, ?_⟩
  have hexported : f'.linkage = .exported ↔ f.linkage = .exported := by
    rw [h.recorded.regular.exported_iff hf, h.recorded'.regular.exported_iff hf', hname]
    exact (h.exports_perm.map Prod.snd).mem_iff
  have hexternal : f'.linkage = .external ↔ f.linkage = .external := by
    have hkind := Function.isDeclaration_of_heading hheading
    unfold Function.isDeclaration at hkind
    exact decide_eq_decide.mp hkind
  cases hlink : f.linkage <;> cases hlink' : f'.linkage <;> simp_all

/-- The functions agree up to order in all that is the same in functions of one name. -/
theorem functions_perm {β : Type} {g g' : Function → β}
    (hg : ∀ i j f f', c.unit.module.function? i = some f → c'.unit.module.function? j = some f' →
      f'.name = f.name → g' f' = g f) :
    (c'.unit.module.functions.toList.map g').Perm (c.unit.module.functions.toList.map g) := by
  refine perm_map_of_keys Function.name
    (Module.nodup_names fun _ _ hf => h.recorded.regular.found hf)
    (Module.nodup_names fun _ _ hf => h.recorded'.regular.found hf) (fun f hf => ?_) (fun f' hf' => ?_)
    fun f hf f' hf' hname => ?_
  · obtain ⟨i, hi⟩ := Module.mem_functions.mp hf
    obtain ⟨j, f', hj, hh⟩ := h.within'.heading hi
    exact ⟨f', Module.mem_functions.mpr ⟨j, hj⟩, Function.name_of_heading hh⟩
  · obtain ⟨j, hj⟩ := Module.mem_functions.mp hf'
    obtain ⟨i, f, hi, hh⟩ := h.within.heading hj
    exact ⟨f, Module.mem_functions.mpr ⟨i, hi⟩, (Function.name_of_heading hh).symm⟩
  · obtain ⟨i, hi⟩ := Module.mem_functions.mp hf
    obtain ⟨j, hj⟩ := Module.mem_functions.mp hf'
    exact hg i j f f' hi hj hname

theorem definitionCalls_eq :
    c'.unit.module.definitionCalls = c.unit.module.definitionCalls := by
  rw [h.recorded.regular.definitionCalls_eq, h.recorded'.regular.definitionCalls_eq]
  refine List.Perm.countP_eq _ ?_
  rw [List.flatMap_def, List.flatMap_def]
  exact (h.functions_perm fun _ _ _ _ => h.calledNames_eq).flatten

theorem generated_eq : c'.unit.generated = c.unit.generated := by
  have hkinds : (c'.unit.module.functions.toList.map Function.isDeclaration).Perm
      (c.unit.module.functions.toList.map Function.isDeclaration) :=
    h.functions_perm fun _ _ _ _ hf hf' hname =>
      Function.isDeclaration_of_heading (h.heading_eq hf hf' hname).1
  rw [h.recorded.regular.orderly.generated, h.recorded'.regular.orderly.generated,
    Module.length_definitions, Module.length_definitions]
  have hcount := hkinds.countP_eq fun b => !b
  rwa [List.countP_map, List.countP_map] at hcount

theorem gcRequired_eq : c'.unit.gcRequired = c.unit.gcRequired :=
  Bool.eq_iff_iff.mpr ⟨h.within.collector, h.within'.collector⟩

/-- Requests that were not the first for a definition are as many, if all requests have been used. -/
theorem cacheHits_eq (hc : c.unit.served = c.unit.uses) (hc' : c'.unit.served = c'.unit.uses) :
    c'.unit.cacheHits = c.unit.cacheHits := by
  have hexports := h.exports_perm.length_eq
  unfold Module.exportedSymbols at hexports
  rw [List.length_map, List.length_map, Array.length_toList, Array.length_toList] at hexports
  unfold UnitState.served UnitState.uses at hc hc'
  rw [h.definitionCalls_eq, h.generated_eq, hexports, ← hc] at hc'
  exact Nat.add_left_cancel hc'

end Compiler.Reordered

/-! ## Results -/

/-- Outputs with the same functions, name by name: parameters, return type, linkage, and whether they
are declared or defined; with the same exports; and with the same flag and counts. -/
structure Output.Reorders (out out' : Output) : Prop where
  functions : (out'.module.functions.toList.map fun f => (f.heading, f.linkage)).Perm
    (out.module.functions.toList.map fun f => (f.heading, f.linkage))
  exports : out'.module.exportedSymbols.Perm out.module.exportedSymbols
  collector : out'.gcRequired = out.gcRequired
  generated : out'.generated = out.generated
  cacheHits : out'.cacheHits = out.cacheHits

namespace Program

/-- The nodes of the trees of a program. -/
inductive HasNode (p : Program) : Node → Prop
  | body {f decl n} (hf : p.function? f = some decl) (hn : decl.body = some n) : HasNode p n
  | default {f decl q n} (hf : p.function? f = some decl) (hq : q ∈ decl.params)
    (hn : q.default = some n) : HasNode p n
  | child {n c} (hn : HasNode p n) (hc : c ∈ n.children) : HasNode p c

/-- The types that calls of a program can pass for type parameters: those that are written, and what
they come to when such types are put for the type parameters in them. -/
inductive Passes (p : Program) : StaticType → Prop
  | written {n s t} (hn : p.HasNode n) (hs : n.signature? = some s) (ht : t ∈ s.typeArgs) : Passes p t
  | substitute {t} {subst : Substitution} (ht : Passes p t)
    (hs : ∀ {name u}, subst.get? name = some u → Passes p u) : Passes p (t.substitute subst)

variable {p : Program} {n : Node} {P : Node → Prop} {classOf : String → ClassId}

theorem Everywhere.hasNode (h : p.Everywhere P) (hn : p.HasNode n) : P n := by
  have htree : n.Everywhere P := by
    induction hn with
    | body hf hn => exact h.body hf hn
    | default hf hq hn => exact h.default hf hq hn
    | child _ hc ih =>
      cases ih with
      | mk _ hchildren => exact hchildren _ hc
  exact htree.here

theorem HasNode.everywhere (n : Node) (hn : p.HasNode n) : n.Everywhere p.HasNode :=
  ⟨hn, fun c hc => everywhere c (.child hn hc)⟩
termination_by sizeOf n
decreasing_by exact Node.sizeOf_lt_of_mem_children hc

theorem callsWithin_passes (hp : p.SparesSymbols) : p.CallsWithin (fun _ => True) p.Passes where
  everywhere := Program.Everywhere.mono (P := p.HasNode)
    (fun _ hn _ hs => ⟨trivial, fun _ ht => .written hn hs ht⟩)
    ⟨fun hf hn => HasNode.everywhere _ (.body hf hn),
      fun hf hq hn => HasNode.everywhere _ (.default hf hq hn)⟩
  substitute := .substitute
  spares := hp

theorem Passes.namedBy (hp : p.NamedBy classOf) {t : StaticType} (ht : p.Passes t) :
    t.NamedBy classOf := by
  induction ht with
  | written hn hs ht => exact hp.typeArgs.hasNode hn _ hs _ ht
  | substitute _ _ ih ihs => exact ih.substitute ihs

/-- Functions are told apart by what is different for all of them. -/
theorem eq_of_key_eq {α : Type} (key : FunctionDecl → α) (hnodup : (p.functions.toList.map key).Nodup)
    {f g : FuncId} {decl decl' : FunctionDecl} (hf : p.function? f = some decl)
    (hg : p.function? g = some decl') (hkey : key decl = key decl') : f = g := by
  have hkeys {f : FuncId} {decl : FunctionDecl} (hf : p.function? f = some decl) :
      (p.functions.toList.map key)[f.index]? = some (key decl) := by
    rw [List.getElem?_map, Array.getElem?_toList]
    exact congrArg (Option.map key) hf
  have hlt := (List.getElem?_eq_some_iff.mp (hkeys hf)).1
  have hindex : f.index = g.index :=
    (List.getElem?_inj hlt hnodup).mp ((hkeys hf).trans (hkey ▸ (hkeys hg).symm))
  obtain ⟨i⟩ := f
  obtain ⟨j⟩ := g
  obtain rfl : i = j := hindex
  rfl

theorem DistinctSymbols.mono {T U : StaticType → Prop} (hTU : ∀ {t}, T t → U t)
    (h : p.DistinctSymbols U) : p.DistinctSymbols T := by
  intro sp sp' hsp hsp' hsymbol
  exact h sp sp' ⟨hsp.resolves, fun t ht => hTU (hsp.typeArgs t ht)⟩
    ⟨hsp'.resolves, fun t ht => hTU (hsp'.typeArgs t ht)⟩ hsymbol

/-- Symbols are distinct if functions of the same name have different numbers of type parameters. -/
theorem NamedBy.distinctSymbols_of_arity (hp : p.NamedBy classOf)
    (hd : ∀ {f g decl decl'}, p.function? f = some decl → p.function? g = some decl' →
      decl.body.isSome = true → decl'.body.isSome = true →
      decl.owner.map p.className = decl'.owner.map p.className → decl.name = decl'.name →
      decl.typeParams.length = decl'.typeParams.length → f = g) :
    p.DistinctSymbols (StaticType.NamedBy classOf) := by
  intro sp sp' hsp hsp' hsymbol
  obtain ⟨howner, hname, -, htypes⟩ := hsp.of_symbol_eq hp hsp' hsymbol
  obtain ⟨decl, _, _, hdecl, hbody, hres⟩ := hsp.resolves
  obtain ⟨decl', _, _, hdecl', hbody', hres'⟩ := hsp'.resolves
  rw [hres.owner_eq, hres'.owner_eq] at howner
  rw [hres.name_eq, hres'.name_eq] at hname
  exact (hsp.eq_iff hp hsp' hsymbol).mpr (hd hdecl hdecl' hbody hbody' howner hname
    (hres.arity.trans (htypes ▸ hres'.arity.symm)))

/-- Symbols are distinct if the names of functions and classes are. -/
theorem NamedBy.distinctSymbols (hp : p.NamedBy classOf) (hd : p.DistinctNames) :
    p.DistinctSymbols p.Passes :=
  (hp.distinctSymbols_of_arity fun hf hg hbody hbody' howner hname _ =>
    hd hf hg hbody hbody' howner hname).mono fun ht => ht.namedBy hp

end Program

theorem compiles_iff {p : Program} {config : Config} {out : Output} :
    Compiles p config (.ok out) ↔ ∃ depth, compileAt depth p config = .ok out := by
  constructor
  · rintro ⟨-, enough, henough⟩
    exact ⟨enough, henough enough le_rfl⟩
  · rintro ⟨depth, hdepth⟩
    refine ⟨nofun, depth, fun depth' hle => ?_⟩
    rw [compileAt_eq hle (by rw [hdepth]; nofun), hdepth]

/-- The bounded recursion of `compile` ends in the same way, unless it runs out of depth. -/
theorem Compiles.compile_eq {p : Program} {config : Config} {result : Except Failure Output}
    (h : Compiles p config result) (hne : compile p config ≠ .error .exhausted) :
    compile p config = result := by
  obtain ⟨-, enough, henough⟩ := h
  rw [compile_eq_compileAt] at hne ⊢
  rw [← henough (max enough p.depthBound) (Nat.le_max_left _ _)]
  exact (compileAt_eq (Nat.le_max_right _ _) hne).symm

theorem compiles_of_compile {p : Program} {config : Config} {out : Output}
    (h : compile p config = .ok out) : Compiles p config (.ok out) :=
  compiles_iff.mpr ⟨p.depthBound, by rw [← compile_eq_compileAt, h]⟩

/-- What compiles with the entry points in one order compiles with them in any other. -/
theorem Compiles.reordered {T : StaticType → Prop} {p : Program} (hp : p.CallsWithin (fun _ => True) T)
    (hd : p.DistinctSymbols T) {funcs : List FuncId} (hf : funcs.Perm p.entryPoints) {config : Config}
    {out : Output} (h : Compiles p config (.ok out)) :
    ∃ out', Compiles { p with entryPoints := funcs } config (.ok out') ∧ out.Reorders out' := by
  obtain ⟨depth, hdepth⟩ := compiles_iff.mp h
  obtain ⟨c, hc, hout⟩ := except_bind_ok hdepth
  cases hout
  let env : Env := ⟨p, config, .standard⟩
  let env' : Env := ⟨{ p with entryPoints := funcs }, config, .standard⟩
  have hs : env.Similar env' := ⟨rfl, funcs, rfl⟩
  obtain ⟨depth', c', hc', hr⟩ := Compiler.exists_reordered hs rfl hp hd hf hc
  have balanced {p : Program} {depth : Nat} {funcs : List FuncId} {c : Compiler}
      (hc : (Compiler.new p config .standard).compileAllAt depth funcs = .ok c) :
      c.unit.served = c.unit.uses :=
    (Compiler.compileAllAt_follows (Compiler.orderly_new p config .standard) hc).2.balance.trans
      (Nat.zero_add _)
  refine ⟨⟨c'.unit.module, c'.unit.gcRequired, c'.unit.generated, c'.unit.cacheHits⟩,
    compiles_iff.mpr ⟨depth', ?_⟩, ?_⟩
  · have hc' : (Compiler.new { p with entryPoints := funcs } config .standard).compileAllAt depth' funcs =
      .ok c' := hc'
    unfold compileAt
    dsimp only
    rw [hc']
    rfl
  · refine ⟨hr.functions_perm fun _ _ _ _ hf hf' hname => ?_, hr.exports_perm, hr.gcRequired_eq,
      hr.generated_eq, hr.cacheHits_eq (balanced hc) (balanced hc')⟩
    obtain ⟨hheading, hlink⟩ := hr.heading_eq hf hf' hname
    rw [hheading, hlink]

/-- The order of the entry points does not matter. If specializations with the same symbol are the
same, and no function that is defined elsewhere has a reserved name, then compilation succeeds with
the entry points in any other order exactly if it succeeds in the given one, and the two outputs have
the same functions and exports, the same flag for the collector and the same counts. The last part is
about the bounded recursion of `compile`, which in one of the orders may run out. -/
theorem compile_perm {p : Program} (hp : p.SparesSymbols) (hd : p.DistinctSymbols p.Passes)
    {funcs : List FuncId} (hf : funcs.Perm p.entryPoints) (config : Config) :
    let p' : Program := { p with entryPoints := funcs }
    ((∃ out, Compiles p config (.ok out)) ↔ ∃ out', Compiles p' config (.ok out')) ∧
    (∀ out out', Compiles p config (.ok out) → Compiles p' config (.ok out') → out.Reorders out') ∧
    (compile p config = .error .exhausted ∨ compile p' config = .error .exhausted ∨
      (∃ out out', compile p config = .ok out ∧ compile p' config = .ok out' ∧ out.Reorders out') ∨
      ∃ e e', compile p config = .error e ∧ compile p' config = .error e') := by
  intro p'
  have hs : (Env.mk p config .standard).Similar ⟨p', config, .standard⟩ := ⟨rfl, funcs, rfl⟩
  have hp' := Program.callsWithin_passes hp
  have there {out : Output} (h : Compiles p config (.ok out)) :
      ∃ out', Compiles p' config (.ok out') ∧ out.Reorders out' := h.reordered hp' hd hf
  have back {out' : Output} (h : Compiles p' config (.ok out')) :
      ∃ out, Compiles p config (.ok out) := by
    obtain ⟨out, hout, -⟩ := h.reordered (hs.callsWithin hp') (hs.distinctSymbols hd)
      hf.symm
    exact ⟨out, hout⟩
  refine ⟨⟨fun ⟨_, h⟩ => (there h).imp fun _ h => h.1, fun ⟨_, h⟩ => back h⟩, ?_, ?_⟩
  · intro out out' h h'
    obtain ⟨out'', h'', hr⟩ := there h
    obtain ⟨enough, henough⟩ := h'.2
    obtain ⟨enough', henough'⟩ := h''.2
    have hsame := (henough _ (Nat.le_max_left enough enough')).symm.trans
      (henough' _ (Nat.le_max_right enough enough'))
    cases hsame
    exact hr
  · by_cases hx : compile p config = .error .exhausted
    · exact .inl hx
    by_cases hx' : compile p' config = .error .exhausted
    · exact .inr (.inl hx')
    refine .inr (.inr ?_)
    cases hc : compile p config with
    | ok out =>
      obtain ⟨out', h', hr⟩ := there (compiles_of_compile hc)
      exact .inl ⟨out, out', rfl, h'.compile_eq hx', hr⟩
    | error e =>
      cases hc' : compile p' config with
      | error e' => exact .inr ⟨e, e', rfl, rfl⟩
      | ok out' =>
        obtain ⟨out, h⟩ := back (compiles_of_compile hc')
        cases hc.symm.trans (h.compile_eq hx)

/-- Two entry points, one of which calls the other, and a generic function:
`function same<T>(x: T): T { return x; } function one(): int { return same<int>(1); }
function two(): int { return same<int>(one()); }`. -/
def sharingProgram : Program :=
  let node (t : StaticType) (form : Form Node) : Node := .mk ⟨0⟩ .dummy t form
  let returning (n : Node) : Node := node .void (.block [node .void (.ret (some n))])
  let call (name : String) (args : List Node) (func : FuncId) (typeArgs : List StaticType) : Node :=
    node .int (.call (node .void (.identifier name)) args (some ⟨func, typeArgs⟩))
  { functions := #[
      { name := "same"
        typeParams := ["T"]
        params := [{ name := "x", type := .param "T" }]
        ret := .param "T"
        body := some (returning (node (.param "T") (.identifier "x"))) },
      { name := "one", ret := .int
        body := some (returning (call "same" [node .int (.numericLiteral "1")] ⟨0⟩ [.int])) },
      { name := "two", ret := .int
        body := some (returning (call "same" [call "one" [] ⟨1⟩ []] ⟨0⟩ [.int])) }]
    entryPoints := [⟨1⟩, ⟨2⟩] }

theorem namedBy_sharingProgram : sharingProgram.NamedBy fun _ => ⟨0⟩ := by
  have hall : ∀ decl ∈ sharingProgram.functions.toList, startsWithDigit decl.name = false ∧
      ∀ q ∈ decl.params, q.type = .param "T" := by
    decide +kernel
  have hdecl {f decl} (hf : sharingProgram.function? f = some decl) :=
    hall decl (Array.mem_toList_iff.mpr (Array.mem_of_getElem? hf))
  have hpassed : sharingProgram.passesWithin
      (fun n => n.signature?.all fun s => s.typeArgs.all (· = .int)) 6 = true := by
    decide +kernel
  refine ⟨fun hf => (hdecl hf).1, fun cls => ?_, fun hf hq => ?_, ?_⟩
  · have hnone : sharingProgram.className cls = "" := rfl
    rw [hnone]
    rfl
  · rw [(hdecl hf).2 _ hq]
    exact (by decide : startsWithDigit "T" = false)
  · refine (Program.everywhere_of_passesWithin 6 hpassed).mono fun n hn s hs t ht => ?_
    rw [hs, Option.all_some, List.all_eq_true] at hn
    rw [of_decide_eq_true (hn t ht)]
    trivial

theorem distinctNames_sharingProgram : sharingProgram.DistinctNames := by
  intro f g decl decl' hf hg _ _ _ hname
  exact Program.eq_of_key_eq FunctionDecl.name (by decide +kernel) hf hg hname

/-- Exported in either order; only in one of them a definition is there before it is called. -/
theorem compile_perm_sharing : sharingProgram.SparesSymbols ∧
    sharingProgram.DistinctSymbols sharingProgram.Passes ∧
    ∃ out out', compile sharingProgram {} = .ok out ∧
      compile { sharingProgram with entryPoints := [⟨2⟩, ⟨1⟩] } {} = .ok out' ∧ out.Reorders out' := by
  have hspares : sharingProgram.SparesSymbols := by
    have hall : ∀ decl ∈ sharingProgram.functions.toList, decl.body.isSome = true := by decide +kernel
    intro decl hdecl hnone
    have hsome := hall decl (Array.mem_toList_iff.mpr hdecl)
    rw [hnone] at hsome
    cases hsome
  have hdistinct := namedBy_sharingProgram.distinctSymbols distinctNames_sharingProgram
  have hok : (compile sharingProgram {}).toBool = true ∧
      (compile { sharingProgram with entryPoints := [⟨2⟩, ⟨1⟩] } {}).toBool = true := by
    decide +kernel
  refine ⟨hspares, hdistinct, ?_⟩
  rcases (compile_perm hspares hdistinct (List.Perm.swap (⟨1⟩ : FuncId) ⟨2⟩ []) {}).2.2 with
    he | he | hboth | ⟨e, _, he, -⟩
  · rw [he] at hok
    cases hok.1
  · rw [he] at hok
    cases hok.2
  · exact hboth
  · rw [he] at hok
    cases hok.1

end TypedLowering
