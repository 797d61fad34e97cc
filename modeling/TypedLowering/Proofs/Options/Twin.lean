import TypedLowering.Proofs.Coupling.Statement
import TypedLowering.Proofs.Lowering.Descriptor
import TypedLowering.Proofs.Lowering.Regular

/-!
Units that two runs with different options have built. The definitions correspond one to one, in the
order in which they were entered; what they contain may differ, but not which of their blocks end.
Declarations of the support library come and go with the options, so only the other names are bound
alike; those of the support library are never bound to anything else.
-/
namespace TypedLowering
set_option autoImplicit false
open Ssa

/-! ## Names of the support library -/

namespace SupportFunction

/-- What the name of a support function starts with. -/
def stem : SupportFunction → String
  | .objectAlloc => "brisk_object_alloc"
  | .box _ => "brisk_box_"
  | .arrayNew _ => "brisk_array_new_"
  | .arrayFromBuffer _ => "brisk_array_from_buffer_"
  | .arrayWithLength _ => "brisk_array_with_length_"
  | .arrayPush _ => "brisk_array_push_"
  | .arrayPop _ => "brisk_array_pop_"
  | .arrayGet _ => "brisk_array_get_"
  | .arraySet _ => "brisk_array_set_"
  | .mathRandom => "brisk_math_random"

/-- What the type or the storage adds to the name. -/
def ending : SupportFunction → String
  | .objectAlloc | .mathRandom => ""
  | .box t => scalarSuffix t
  | .arrayNew s | .arrayFromBuffer s | .arrayWithLength s | .arrayPush s | .arrayPop s | .arrayGet s
  | .arraySet s => s.suffix

def stems : List String :=
  ["brisk_object_alloc", "brisk_box_", "brisk_array_new_", "brisk_array_from_buffer_",
    "brisk_array_with_length_", "brisk_array_push_", "brisk_array_pop_", "brisk_array_get_",
    "brisk_array_set_", "brisk_math_random"]

theorem symbol_eq_append (f : SupportFunction) : f.symbol = f.stem ++ f.ending := by
  cases f <;> rfl

theorem stem_mem (f : SupportFunction) : f.stem ∈ stems := by
  cases f <;> simp [stem, stems]

theorem eq_of_stem_isPrefixOf :
    ∀ a ∈ stems, ∀ b ∈ stems, a.toList.isPrefixOf b.toList = true → a = b := by decide

theorem stem_eq {f g : SupportFunction} (h : f.symbol = g.symbol) :
    f.stem = g.stem ∧ f.ending = g.ending := by
  have hlist : f.stem.toList ++ f.ending.toList = g.stem.toList ++ g.ending.toList := by
    rw [← String.toList_append, ← String.toList_append, ← symbol_eq_append, ← symbol_eq_append, h]
  have hstem : f.stem = g.stem := by
    rcases List.prefix_or_prefix_of_prefix (List.prefix_append _ _)
      (hlist ▸ List.prefix_append g.stem.toList g.ending.toList) with hp | hp
    · exact eq_of_stem_isPrefixOf _ f.stem_mem _ g.stem_mem (List.isPrefixOf_iff_prefix.mpr hp)
    · exact (eq_of_stem_isPrefixOf _ g.stem_mem _ f.stem_mem (List.isPrefixOf_iff_prefix.mpr hp)).symm
  refine ⟨hstem, String.toList_inj.mp ?_⟩
  rw [hstem] at hlist
  exact List.append_cancel_left hlist

/-- Arrays whose elements have a type. -/
def Storable (s : ElementStorage) : Prop := s.type ≠ .void

theorem type_of_suffix {s t : ElementStorage} (hs : Storable s) (ht : Storable t)
    (h : s.suffix = t.suffix) : s.type = t.type := by
  unfold ElementStorage.suffix at h
  unfold Storable at hs ht
  generalize s.type = a, t.type = b at *
  cases a <;> cases b <;> first | rfl | exact absurd rfl hs | exact absurd rfl ht | exact absurd h (by decide)

/-- What a declaration of the function says. -/
def heading (f : SupportFunction) : String × List Ty × Ty × Bool × Bool :=
  (f.symbol, f.params, f.ret, f.variadic, true)

/-- The name of a support function determines its signature. -/
theorem heading_of_symbol {f g : SupportFunction} (hf : f.Stores Storable) (hg : g.Stores Storable)
    (h : f.symbol = g.symbol) : f.heading = g.heading := by
  obtain ⟨hstem, hending⟩ := stem_eq h
  unfold heading
  rw [h]
  cases f with
  | objectAlloc => cases g <;> first | rfl | simp [stem] at hstem
  | mathRandom => cases g <;> first | rfl | simp [stem] at hstem
  | box t =>
    cases g with
    | box u => cases t <;> cases u <;> first | rfl | exact absurd hending (by decide)
    | _ => simp [stem] at hstem
  | _ =>
    cases g <;> first
      | (simp [stem] at hstem; done)
      | (have htype := type_of_suffix hf hg hending
         simp only [params, ret, variadic, htype])

/-- Whether a name is that of a support function. -/
def Names (name : String) : Prop := ∃ f : SupportFunction, f.symbol = name

theorem not_names_of_isReserved {name : String} (h : Mangling.isReserved name = true) :
    ¬ Names name := by
  rintro ⟨f, rfl⟩
  rw [f.isReserved_symbol] at h
  cases h

/-- A name that starts like none of theirs. -/
theorem not_names_of_stems {name : String}
    (h : ∀ a ∈ stems, a.toList.isPrefixOf name.toList = false) : ¬ Names name := by
  rintro ⟨f, rfl⟩
  have hprefix : f.stem.toList.isPrefixOf f.symbol.toList = true := by
    rw [f.symbol_eq_append, String.toList_append, List.isPrefixOf_iff_prefix]
    exact List.prefix_append _ _
  rw [h _ f.stem_mem] at hprefix
  cases hprefix

theorem not_names_math {name : String} (h : name ∈ MathMember.symbols) : ¬ Names name := by
  have apart : ∀ s ∈ MathMember.symbols, ∀ a ∈ stems, a.toList.isPrefixOf s.toList = false := by
    decide
  exact not_names_of_stems (apart name h)

end SupportFunction

/-! ## Modules -/

namespace Ssa

/-- Which blocks of a function end. -/
def Function.ends (f : Function) : List Bool := f.blocks.toList.map (·.terminator.isSome)

/-- Functions that look alike from outside, with the same blocks open. -/
structure Function.Matches (f f' : Function) : Prop where
  heading : f'.heading = f.heading
  linkage : f'.linkage = f.linkage
  ends : f'.ends = f.ends

namespace Function.Matches

variable {f f' f'' : Function}

theorem refl (f : Function) : f.Matches f := ⟨rfl, rfl, rfl⟩

theorem symm (h : f.Matches f') : f'.Matches f := ⟨h.heading.symm, h.linkage.symm, h.ends.symm⟩

theorem trans (h : f.Matches f') (h' : f'.Matches f'') : f.Matches f'' :=
  ⟨h'.heading.trans h.heading, h'.linkage.trans h.linkage, h'.ends.trans h.ends⟩

theorem isDeclaration (h : f.Matches f') : f'.isDeclaration = f.isDeclaration :=
  isDeclaration_of_heading h.heading

theorem isTerminated_eq_ends (f : Function) (b : BlockId) :
    f.isTerminated b = (f.ends[b.index]?).getD false := by
  unfold Function.isTerminated Function.ends
  rw [List.getElem?_map, Array.getElem?_toList]
  cases f.blocks[b.index]? <;> rfl

theorem isTerminated (h : f.Matches f') (b : BlockId) : f'.isTerminated b = f.isTerminated b := by
  rw [isTerminated_eq_ends, isTerminated_eq_ends, h.ends]

theorem nextBlock (h : f.Matches f') : f'.nextBlock = f.nextBlock := by
  have hlength := congrArg List.length h.ends
  simp only [Function.ends, List.length_map, Array.length_toList] at hlength
  rw [Function.nextBlock, hlength, Function.nextBlock]

end Function.Matches

namespace Function

theorem ends_append (f : Function) (b : BlockId) (d : Definition) :
    (f.append b d).ends = f.ends := by
  refine List.ext_getElem? fun i => ?_
  unfold ends append define place
  rw [Array.toList_modify, List.getElem?_map, List.getElem?_map, List.getElem?_modify]
  cases f.blocks.toList[i]? with
  | none => rfl
  | some block => split <;> rfl

theorem ends_addSlot (f : Function) (t : Ty) : (f.addSlot t).ends = f.ends := by
  refine List.ext_getElem? fun i => ?_
  unfold ends addSlot define placeSlot
  rw [Array.toList_modify, List.getElem?_map, List.getElem?_map, List.getElem?_modify]
  cases f.blocks.toList[i]? with
  | none => rfl
  | some block => split <;> rfl

theorem ends_terminate (f : Function) (b : BlockId) (t : Terminator) :
    (f.terminate b t).ends = f.ends.modify b.index fun _ => true := by
  refine List.ext_getElem? fun i => ?_
  unfold ends terminate
  rw [Array.toList_modify, List.getElem?_map, List.getElem?_modify, List.getElem?_modify,
    List.getElem?_map]
  cases f.blocks.toList[i]? with
  | none => rfl
  | some block => split <;> rfl

theorem ends_addBlock (f : Function) (word : String) : (f.addBlock word).ends = f.ends ++ [false] := by
  unfold ends addBlock
  rw [Array.toList_push, List.map_append]
  rfl

end Function

namespace Module

variable {m m' m'' : Module} {id : FunctionId} {f : Function} {g : Function → Function} {name : String}

/-- The numbers of the definitions, in the order in which these were entered. -/
def definitionIds (m : Module) : List FunctionId := m.definitions.map Prod.fst

theorem definitionIds_eq (m : Module) :
    m.definitionIds = ((List.range m.functions.size).map Handle.mk).filter m.isDefinition := by
  have hids : m.numbered.map Prod.fst =
      ((List.range m.functions.size).map Handle.mk : List FunctionId) := by
    have hz := List.zipIdx_map_snd 0 m.functions.toList
    rw [Array.length_toList, ← List.range_eq_range'] at hz
    rw [← hz, numbered, List.map_map, List.map_map]
    rfl
  unfold definitionIds definitions
  rw [← hids, List.filter_map]
  congr 1
  refine List.filter_congr fun e he => ?_
  obtain ⟨id, f⟩ := e
  have hf : m.function? id = some f := by
    obtain ⟨⟨f', i⟩, hmem, heq⟩ := List.mem_map.mp he
    cases heq
    unfold function?
    rw [← Array.getElem?_toList]
    exact List.mem_zipIdx_iff_getElem?.mp hmem
  rw [Function.comp_apply, isDefinition_eq hf]

theorem nodup_definitionIds (m : Module) : m.definitionIds.Nodup := by
  rw [definitionIds_eq]
  exact (List.nodup_range.map fun _ _ h => congrArg Handle.index h).filter _

theorem mem_definitionIds : id ∈ m.definitionIds ↔
    ∃ f, m.function? id = some f ∧ f.isDeclaration = false := by
  unfold definitionIds
  constructor
  · intro h
    obtain ⟨⟨_, f⟩, hmem, rfl⟩ := List.mem_map.mp h
    exact ⟨f, mem_definitions.mp hmem⟩
  · rintro ⟨f, hf⟩
    exact List.mem_map.mpr ⟨(id, f), mem_definitions.mpr hf, rfl⟩

theorem isDefinition_addFunction_of_lt (m : Module) (f : Function) {i : Nat}
    (hi : i < m.functions.size) : (m.addFunction f).isDefinition ⟨i⟩ = m.isDefinition ⟨i⟩ := by
  unfold isDefinition
  rw [m.function?_addFunction_of_ne fun h => Nat.ne_of_lt hi (congrArg Handle.index h)]

theorem definitionIds_addFunction (m : Module) (f : Function) : (m.addFunction f).definitionIds =
    m.definitionIds ++ if f.isDeclaration then [] else [m.nextFunction] := by
  rw [definitionIds_eq, definitionIds_eq]
  have hsize : (m.addFunction f).functions.size = m.functions.size + 1 := Array.size_push ..
  rw [hsize, List.range_succ, List.map_append, List.filter_append]
  congr 1
  · refine List.filter_congr fun id hid => ?_
    obtain ⟨i, hi, rfl⟩ := List.mem_map.mp hid
    exact isDefinition_addFunction_of_lt m f (List.mem_range.mp hi)
  · have hnext : (m.addFunction f).isDefinition ⟨m.functions.size⟩ = !f.isDeclaration :=
      isDefinition_eq (m.function?_addFunction_next f)
    rw [List.map_singleton, List.filter_singleton, hnext]
    cases f.isDeclaration <;> rfl

theorem definitionIds_modifyFunction (hf : m.function? id = some f)
    (hg : (g f).isDeclaration = f.isDeclaration) :
    (m.modifyFunction id g).definitionIds = m.definitionIds := by
  rw [definitionIds_eq, definitionIds_eq]
  have hsize : (m.modifyFunction id g).functions.size = m.functions.size := Array.size_modify ..
  rw [hsize]
  refine List.filter_congr fun id' _ => ?_
  unfold isDefinition
  rw [m.function?_modifyFunction]
  split
  · next heq =>
    subst heq
    rw [hf, Option.map_some, Option.any_some, Option.any_some, hg]
  · rfl

/-- The heading of the function that a name is bound to. -/
def headingOf (m : Module) (name : String) : Option (String × List Ty × Ty × Bool × Bool) :=
  (m.lookup name).bind fun id => (m.function? id).map Function.heading

theorem headingOf_of_lookup (hl : m.lookup name = some id) (hf : m.function? id = some f) :
    m.headingOf name = some f.heading := by
  rw [headingOf, hl, Option.bind_some, hf]
  rfl

theorem headingOf_modifyFunction (hf : m.function? id = some f) (hg : (g f).heading = f.heading)
    (name : String) : (m.modifyFunction id g).headingOf name = m.headingOf name := by
  unfold headingOf
  show (m.lookup name).bind _ = _
  congr 1
  funext id'
  rw [m.function?_modifyFunction]
  split
  · next heq =>
    subst heq
    rw [hf, Option.map_some, Option.map_some, Option.map_some, hg]
  · rfl

section Declare

variable {params : List Ty} {ret : Ty} {attrs : Attributes} {variadic : Bool}

theorem declare_of_unbound (hl : m.lookup name = none) :
    m.declare name params ret attrs variadic = .ok (m.nextFunction,
      m.addFunction { Function.shell name params ret .external with attrs, variadic }) := by
  unfold declare
  rw [hl]

/-- What declaring a function that is there comes to depends on its heading alone. -/
theorem declare_of_bound (hl : m.lookup name = some id) (hf : m.function? id = some f) :
    m.declare name params ret attrs variadic =
      if f.heading.2 = (params, ret, variadic, true) then .ok (id, m)
      else .error {
        name
        existing := signatureText f.heading.2.1 f.heading.2.2.1 f.heading.2.2.2.1
        requested := signatureText params ret variadic } := by
  unfold declare
  rw [hl]
  dsimp only
  rw [hf]
  refine if_congr ?_ rfl rfl
  simp only [Function.heading, Bool.and_eq_true, decide_eq_true_eq, Prod.mk.injEq]
  tauto

end Declare

/-- Names are bound to functions, and those of the support library to declarations of its functions. -/
structure Answers (m : Module) : Prop where
  bound : ∀ {name id}, m.lookup name = some id → ∃ f, m.function? id = some f
  support : ∀ {support : SupportFunction}, support.Stores SupportFunction.Storable →
    ∀ {heading}, m.headingOf support.symbol = some heading → heading = support.heading

theorem Answers.empty (name : String) : Answers { name } where
  bound := fun h => by cases h
  support := fun _ _ h => by cases h

namespace Answers

theorem of_eq (h : m.Answers) (hf : m'.functions = m.functions) (hs : m'.symbols = m.symbols) :
    m'.Answers := by
  have hfunction (id : FunctionId) : m'.function? id = m.function? id := by
    rw [function?, function?, hf]
  have hlookup (name : String) : m'.lookup name = m.lookup name := by
    rw [lookup, lookup, hs]
  refine ⟨fun hl => ?_, fun hsup heading hh => h.support hsup ?_⟩
  · rw [hfunction]
    exact h.bound ((hlookup _).symm.trans hl)
  · rw [← hh, headingOf, headingOf, hlookup]
    simp only [hfunction]

theorem modifyFunction (h : m.Answers) (hf : m.function? id = some f)
    (hg : (g f).heading = f.heading) : (m.modifyFunction id g).Answers where
  bound := fun {name id'} hl => by
    obtain ⟨k, hk⟩ := h.bound (show m.lookup name = some id' from hl)
    rw [m.function?_modifyFunction]
    split
    · exact ⟨g k, by rw [hk]; rfl⟩
    · exact ⟨k, hk⟩
  support := fun hsup _ hh => h.support hsup (by rwa [headingOf_modifyFunction hf hg] at hh)

theorem headingOf_addFunction_of_ne (h : m.Answers) (hn : f.name ≠ name) :
    (m.addFunction f).headingOf name = m.headingOf name := by
  have hl : (m.addFunction f).lookup name = m.lookup name :=
    Dict.get?_insert_of_ne _ _ hn
  unfold headingOf
  rw [hl]
  cases hid : m.lookup name with
  | none => rfl
  | some id =>
    obtain ⟨k, hk⟩ := h.bound hid
    rw [Option.bind_some, Option.bind_some, m.function?_addFunction_of_ne (ne_nextFunction hk)]

end Answers

theorem headingOf_addFunction_self (m : Module) (f : Function) :
    (m.addFunction f).headingOf f.name = some f.heading :=
  headingOf_of_lookup (m.lookup_addFunction_self f) (m.function?_addFunction_next f)

theorem Answers.addFunction (h : m.Answers)
    (hf : ∀ support : SupportFunction, support.Stores SupportFunction.Storable →
      f.name = support.symbol → f.heading = support.heading) : (m.addFunction f).Answers where
  bound := fun {name id} hl => by
    by_cases hname : f.name = name
    · subst hname
      cases (m.lookup_addFunction_self f).symm.trans hl
      exact ⟨f, m.function?_addFunction_next f⟩
    · rw [lookup, Module.addFunction, Dict.get?_insert_of_ne _ _ hname] at hl
      obtain ⟨k, hk⟩ := h.bound hl
      exact ⟨k, by rw [m.function?_addFunction_of_ne (ne_nextFunction hk), hk]⟩
  support := fun {support} hsup heading hh => by
    by_cases hname : f.name = support.symbol
    · rw [← hname, headingOf_addFunction_self] at hh
      cases hh
      exact hf support hsup hname
    · exact h.support hsup (by rwa [h.headingOf_addFunction_of_ne hname] at hh)

/-! ### One run on its own -/

/-- What a module may go through under some options and not under others: bodies grow, and functions
of the support library are declared. -/
structure Drifts (m m' : Module) : Prop where
  ids : m'.definitionIds = m.definitionIds
  function : ∀ {id f}, m.function? id = some f → ∃ f', m'.function? id = some f' ∧ f.Matches f'
  heading : ∀ {name}, ¬ SupportFunction.Names name → m'.headingOf name = m.headingOf name
  answers : m.Answers → m'.Answers
  exports : m'.exports = m.exports

namespace Drifts

theorem of_eq (hf : m'.functions = m.functions) (hs : m'.symbols = m.symbols)
    (he : m'.exports = m.exports) : m.Drifts m' := by
  have hfunction (id : FunctionId) : m'.function? id = m.function? id := by
    rw [function?, function?, hf]
  refine ⟨?_, fun {id f} h => ⟨f, (hfunction id).trans h, .refl f⟩, fun {name} _ => ?_,
    fun h => h.of_eq hf hs, he⟩
  · unfold definitionIds definitions numbered
    rw [hf]
  · unfold headingOf lookup
    rw [hs]
    simp only [hfunction]

theorem refl (m : Module) : m.Drifts m := of_eq rfl rfl rfl

theorem trans (h : m.Drifts m') (h' : m'.Drifts m'') : m.Drifts m'' where
  ids := h'.ids.trans h.ids
  function := fun hf => by
    obtain ⟨f', hf', hm⟩ := h.function hf
    obtain ⟨f'', hf'', hm'⟩ := h'.function hf'
    exact ⟨f'', hf'', hm.trans hm'⟩
  heading := fun hn => (h'.heading hn).trans (h.heading hn)
  answers := fun ha => h'.answers (h.answers ha)
  exports := h'.exports.trans h.exports

theorem modifyFunction (hf : m.function? id = some f) (hg : f.Matches (g f)) :
    m.Drifts (m.modifyFunction id g) where
  ids := definitionIds_modifyFunction hf hg.isDeclaration
  function := fun {id' k} hk => by
    rw [m.function?_modifyFunction]
    split
    · next heq =>
      subst heq
      cases hf.symm.trans hk
      exact ⟨g f, by rw [hf]; rfl, hg⟩
    · exact ⟨k, hk, .refl k⟩
  heading := fun _ => headingOf_modifyFunction hf hg.heading _
  answers := fun ha => ha.modifyFunction hf hg.heading
  exports := rfl

/-- A declaration of a support function that is not there yet. -/
theorem addFunction (h : m.Answers) {support : SupportFunction}
    (hsup : support.Stores SupportFunction.Storable) (hf : f.heading = support.heading) :
    m.Drifts (m.addFunction f) where
  ids := by
    have hdecl : f.isDeclaration = true := congrArg (·.2.2.2.2) hf
    rw [definitionIds_addFunction, hdecl, if_pos rfl, List.append_nil]
  function := fun {id k} hk =>
    ⟨k, by rw [m.function?_addFunction_of_ne (ne_nextFunction hk), hk], .refl k⟩
  heading := fun {name} hn => by
    have hname : f.name = support.symbol := congrArg Prod.fst hf
    exact h.headingOf_addFunction_of_ne fun heq => hn ⟨support, hname.symm.trans heq⟩
  answers := fun ha => ha.addFunction fun other hother hname => by
    have hsymbol : support.symbol = other.symbol := (congrArg Prod.fst hf).symm.trans hname
    rw [hf, SupportFunction.heading_of_symbol hsup hother hsymbol]
  exports := rfl

end Drifts

end Module

end Ssa

/-! ## Units -/

/-- The definitions of two modules that were entered for the same requests. -/
structure Roster where
  pairs : List (FunctionId × FunctionId)

instance : Preorder Roster where
  le w x := w.pairs ⊆ x.pairs
  le_refl _ := List.Subset.refl _
  le_trans _ _ _ := List.Subset.trans

/-- Operands and the numbers of structs say nothing about the other run. -/
def Roster.outlook : Outlook Roster where
  value _ _ := True
  attributes _ _ := True
  storage := SupportFunction.Storable
  block _ _ := True
  declared _ _ _ := True
  struct _ _ _ := True
  attributes_none := trivial
  storage_of := by
    intro t span l h
    unfold ArrayLayout.of at h
    unfold SupportFunction.Storable
    split at h
    · split at h <;> cases h <;> simp [ElementStorage.type]
    · cases h
  block_mono := fun _ => id
  declared_mono := fun _ => id
  struct_mono := fun _ => id

/-- Descriptors of the same class. -/
abbrev ClassDescriptor.Matches : ClassDescriptor → ClassDescriptor → Prop :=
  ClassDescriptor.Alike fun _ _ => True

namespace UnitState

variable {w : Roster} {u u' v v' : UnitState} {raised : Bool}

/-- What a unit may go through under some options and not under others. -/
structure Drifts (raised : Bool) (u v : UnitState) : Prop where
  module : u.module.Drifts v.module
  specializations : v.specializations = u.specializations
  descriptors : v.descriptors = u.descriptors
  collector : v.gcRequired = (u.gcRequired || raised)
  generated : v.generated = u.generated
  cacheHits : v.cacheHits = u.cacheHits

theorem Drifts.refl (u : UnitState) : u.Drifts false u :=
  ⟨.refl _, rfl, rfl, (Bool.or_false _).symm, rfl, rfl⟩

theorem Drifts.trans {raised' : Bool} (h : u.Drifts raised u') (h' : u'.Drifts raised' v) :
    u.Drifts (raised || raised') v where
  module := h.module.trans h'.module
  specializations := h'.specializations.trans h.specializations
  descriptors := h'.descriptors.trans h.descriptors
  collector := by rw [h'.collector, h.collector, Bool.or_assoc]
  generated := h'.generated.trans h.generated
  cacheHits := h'.cacheHits.trans h.cacheHits

theorem rel_mono {α : Type} {R S : α → α → Prop} (hRS : ∀ a b, R a b → S a b) {a b : Option α}
    (h : Option.Rel R a b) : Option.Rel S a b := by
  cases h with
  | none => exact .none
  | some h => exact .some (hRS _ _ h)

/-- Units in which the same has been requested and exported, with corresponding definitions. -/
structure Twin (w : Roster) (u u' : UnitState) : Prop where
  left : u.module.definitionIds = w.pairs.map Prod.fst
  right : u'.module.definitionIds = w.pairs.map Prod.snd
  twins : ∀ {p}, p ∈ w.pairs → ∃ f f', u.module.function? p.1 = some f ∧
    u'.module.function? p.2 = some f' ∧ f.Matches f'
  heading : ∀ {name}, ¬ SupportFunction.Names name →
    u'.module.headingOf name = u.module.headingOf name
  answers : u.module.Answers
  answers' : u'.module.Answers
  table : ∀ symbol, Option.Rel (fun i i' => (i, i') ∈ w.pairs) (u.specializations.get? symbol)
    (u'.specializations.get? symbol)
  descriptors : ∀ cls, Option.Rel ClassDescriptor.Matches (u.descriptors.get? cls)
    (u'.descriptors.get? cls)
  exports : List.Forall₂ (fun e e' => e'.1 = e.1 ∧ (e.2, e'.2) ∈ w.pairs) u.module.exports.toList
    u'.module.exports.toList
  collector : u'.gcRequired = u.gcRequired
  generated : u'.generated = u.generated
  cacheHits : u'.cacheHits = u.cacheHits

namespace Twin

theorem empty (name name' : String) :
    Twin ⟨[]⟩ { module := { name } } { module := { name := name' } } where
  left := rfl
  right := rfl
  twins := fun hp => by cases hp
  heading := fun _ => rfl
  answers := .empty name
  answers' := .empty name'
  table := fun _ => .none
  descriptors := fun _ => .none
  exports := .nil
  collector := rfl
  generated := rfl
  cacheHits := rfl

theorem drifts (h : u.Twin w u') (hd : u.Drifts raised v) (hd' : u'.Drifts raised v') :
    v.Twin w v' where
  left := hd.module.ids.trans h.left
  right := hd'.module.ids.trans h.right
  twins := fun hp => by
    obtain ⟨f, f', hf, hf', hm⟩ := h.twins hp
    obtain ⟨k, hk, hfk⟩ := hd.module.function hf
    obtain ⟨k', hk', hfk'⟩ := hd'.module.function hf'
    exact ⟨k, k', hk, hk', (hfk.symm.trans hm).trans hfk'⟩
  heading := fun hn => by rw [hd'.module.heading hn, h.heading hn, hd.module.heading hn]
  answers := hd.module.answers h.answers
  answers' := hd'.module.answers h.answers'
  table := fun symbol => by
    rw [hd.specializations, hd'.specializations]
    exact h.table symbol
  descriptors := fun cls => by
    rw [hd.descriptors, hd'.descriptors]
    exact h.descriptors cls
  exports := by
    rw [hd.module.exports, hd'.module.exports]
    exact h.exports
  collector := by rw [hd'.collector, h.collector, hd.collector]
  generated := by rw [hd'.generated, h.generated, hd.generated]
  cacheHits := by rw [hd'.cacheHits, h.cacheHits, hd.cacheHits]

theorem fst_inj (h : u.Twin w u') {p q : FunctionId × FunctionId} (hp : p ∈ w.pairs)
    (hq : q ∈ w.pairs) (heq : p.1 = q.1) : p = q :=
  List.inj_on_of_nodup_map (h.left ▸ u.module.nodup_definitionIds) hp hq heq

theorem snd_inj (h : u.Twin w u') {p q : FunctionId × FunctionId} (hp : p ∈ w.pairs)
    (hq : q ∈ w.pairs) (heq : p.2 = q.2) : p = q :=
  List.inj_on_of_nodup_map (h.right ▸ u'.module.nodup_definitionIds) hp hq heq

/-- Corresponding changes of corresponding functions. -/
theorem edit (h : u.Twin w u') {p : FunctionId × FunctionId} (hp : p ∈ w.pairs)
    (g g' : Function → Function) {f f' : Function} (hf : u.module.function? p.1 = some f)
    (hf' : u'.module.function? p.2 = some f') (hg : (g f).heading = f.heading)
    (hg' : (g' f').heading = f'.heading) (hm : (g f).Matches (g' f')) :
    Twin w { u with module := u.module.modifyFunction p.1 g }
      { u' with module := u'.module.modifyFunction p.2 g' } where
  left := (Module.definitionIds_modifyFunction hf
    (Function.isDeclaration_of_heading hg)).trans h.left
  right := (Module.definitionIds_modifyFunction hf'
    (Function.isDeclaration_of_heading hg')).trans h.right
  twins := fun {q} hq => by
    by_cases heq : p = q
    · subst heq
      refine ⟨g f, g' f', ?_, ?_, hm⟩
      · rw [Module.function?_modifyFunction, if_pos rfl, hf, Option.map_some]
      · rw [Module.function?_modifyFunction, if_pos rfl, hf', Option.map_some]
    · obtain ⟨k, k', hk, hk', hkm⟩ := h.twins hq
      refine ⟨k, k', ?_, ?_, hkm⟩
      · rw [Module.function?_modifyFunction, if_neg fun he => heq (h.fst_inj hp hq he), hk]
      · rw [Module.function?_modifyFunction, if_neg fun he => heq (h.snd_inj hp hq he), hk']
  heading := fun {name} hn => by
    rw [Module.headingOf_modifyFunction hf hg, Module.headingOf_modifyFunction hf' hg', h.heading hn]
  answers := h.answers.modifyFunction hf hg
  answers' := h.answers'.modifyFunction hf' hg'
  table := h.table
  descriptors := h.descriptors
  exports := h.exports
  collector := h.collector
  generated := h.generated
  cacheHits := h.cacheHits

/-- An export of corresponding functions. -/
theorem addExport (h : u.Twin w u') {p : FunctionId × FunctionId} (hp : p ∈ w.pairs)
    (name : String) : Twin w { u with module := u.module.addExport name p.1 }
      { u' with module := u'.module.addExport name p.2 } := by
  obtain ⟨f, f', hf, hf', hm⟩ := h.twins hp
  have hdef : p.1 ∈ u.module.definitionIds := by
    rw [h.left]
    exact List.mem_map_of_mem hp
  obtain ⟨k, hk, hkind⟩ := Module.mem_definitionIds.mp hdef
  cases hf.symm.trans hk
  have hkind' : f'.isDeclaration = false := hm.isDeclaration.trans hkind
  have exported {f : Function} (hf : f.isDeclaration = false) :
      ({ f with linkage := .exported } : Function).heading = f.heading := by
    simp only [Function.heading, Function.isDeclaration] at hf ⊢
    rw [hf]
    rfl
  have hedit := h.edit hp (fun f => { f with linkage := .exported })
    (fun f => { f with linkage := .exported }) hf hf' (exported hkind) (exported hkind')
    ⟨(exported hkind').trans (hm.heading.trans (exported hkind).symm), rfl, hm.ends⟩
  refine { hedit with
    answers := hedit.answers.of_eq rfl rfl, answers' := hedit.answers'.of_eq rfl rfl, exports := ?_ }
  show List.Forall₂ _ (u.module.exports.push (name, p.1)).toList
    (u'.module.exports.push (name, p.2)).toList
  rw [Array.toList_push, Array.toList_push]
  exact List.rel_append h.exports (.cons ⟨rfl, hp⟩ .nil)

/-- The same function is added to both modules. -/
theorem addFunction (h : u.Twin w u') {f f' : Function} (hm : f.Matches f')
    (hname : ¬ SupportFunction.Names f.name) {x : Roster}
    (hx : x.pairs = w.pairs ++ if f.isDeclaration then [] else
      [(u.module.nextFunction, u'.module.nextFunction)]) :
    Twin x { u with module := u.module.addFunction f }
      { u' with module := u'.module.addFunction f' } := by
  have hname' : f'.name = f.name := Function.name_of_heading hm.heading
  have hle : w.pairs ⊆ x.pairs := by
    rw [hx]
    exact List.subset_append_left _ _
  refine {
    left := ?_, right := ?_, twins := fun {p} hp => ?_, heading := fun {name} hn => ?_
    answers := h.answers.addFunction fun support _ heq => (hname ⟨support, heq.symm⟩).elim
    answers' := h.answers'.addFunction fun support _ heq =>
      (hname ⟨support, (hname'.symm.trans heq).symm⟩).elim
    table := fun symbol => rel_mono (fun _ _ hi => hle hi) (h.table symbol)
    descriptors := h.descriptors
    exports := h.exports.imp fun _ _ he => ⟨he.1, hle he.2⟩
    collector := h.collector, generated := h.generated, cacheHits := h.cacheHits }
  · rw [Module.definitionIds_addFunction, h.left, hx, List.map_append]
    cases f.isDeclaration <;> rfl
  · rw [Module.definitionIds_addFunction, h.right, hx, List.map_append, hm.isDeclaration]
    cases f.isDeclaration <;> rfl
  · rw [hx] at hp
    rcases List.mem_append.mp hp with hp | hp
    · obtain ⟨k, k', hk, hk', hkm⟩ := h.twins hp
      refine ⟨k, k', ?_, ?_, hkm⟩
      · rw [Module.function?_addFunction_of_ne _ (Module.ne_nextFunction hk), hk]
      · rw [Module.function?_addFunction_of_ne _ (Module.ne_nextFunction hk'), hk']
    · split at hp
      · cases hp
      · obtain rfl := List.mem_singleton.mp hp
        exact ⟨f, f', Module.function?_addFunction_next _ _, Module.function?_addFunction_next _ _,
          hm⟩
  · by_cases heq : f.name = name
    · subst heq
      have hself := Module.headingOf_addFunction_self u'.module f'
      rw [hname'] at hself
      rw [hself, Module.headingOf_addFunction_self, hm.heading]
    · rw [h.answers.headingOf_addFunction_of_ne heq,
        h.answers'.headingOf_addFunction_of_ne (hname' ▸ heq), h.heading hn]

end Twin

end UnitState

end TypedLowering
