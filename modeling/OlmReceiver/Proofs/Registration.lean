import OlmReceiver.Event.Registry
import Mathlib.Data.List.Induction

/-!
# Registrations one after another

A registry starts empty or with the six known types, and a program registers further parsers in
any number and order, the known types included. Which parser reads a content is said here by the
list of registrations alone: the last one of the content's type, or else the one it started with.
Event types are compared as they are, so a type that only looks like a known one has no parser.
-/

namespace OlmReceiver

namespace ContentRegistry

/-- One registration: an event type and the parser for it. -/
abbrev Registration := String × ContentParser

/-- The registry after the registrations of a list, in their order. -/
def registerAll (r : ContentRegistry) (regs : List Registration) : ContentRegistry :=
  regs.foldl (fun r reg => r.register reg.1 reg.2) r

/-- Some registration of the list is one of the event type. -/
def Registers (regs : List Registration) (t : String) : Prop :=
  ∃ reg ∈ regs, reg.1 = t

/-- The parser is the one of the last registration of the event type in the list. -/
def LastFor (regs : List Registration) (t : String) (p : ContentParser) : Prop :=
  ∃ earlier later, regs = earlier ++ (t, p) :: later ∧ ¬ Registers later t

/-- What a registry can start as. -/
inductive Base where
  | empty
  | standard

/-- The registry that a base stands for. -/
def Base.registry : Base → ContentRegistry
  | .empty => ContentRegistry.empty
  | .standard => ContentRegistry.standard

/-- The event types that a base knows, each with its parser. -/
inductive BuiltIn : Base → String → ContentParser → Prop
  | roomKey : BuiltIn .standard "m.room_key" (.ofWire .roomKey)
  | roomKeyRequest : BuiltIn .standard "m.room_key_request" (.ofWire .roomKeyRequest)
  | forwardedRoomKey : BuiltIn .standard "m.forwarded_room_key" (.ofWire .forwardedRoomKey)
  | dummy : BuiltIn .standard "m.dummy" (.ofWire .dummy)
  | roomMessage : BuiltIn .standard "m.room.message" (.ofWire .roomMessage)
  | approval : BuiltIn .standard "m.approval" (.ofWire .approval)

/-! ## The parser of one type -/

theorem registerAll_append (r : ContentRegistry) (regs regs' : List Registration) :
    r.registerAll (regs ++ regs') = (r.registerAll regs).registerAll regs' :=
  List.foldl_append

theorem registers_append {regs regs' : List Registration} {t : String} :
    Registers (regs ++ regs') t ↔ Registers regs t ∨ Registers regs' t := by
  simp only [Registers, List.mem_append, or_and_right, exists_or]

theorem registers_singleton {reg : Registration} {t : String} :
    Registers [reg] t ↔ reg.1 = t := by
  simp [Registers]

/-- A type that the list does not register keeps the parser it had. -/
theorem parser?_registerAll_of_not {r : ContentRegistry} {regs : List Registration} {t : String}
    (h : ¬ Registers regs t) : (r.registerAll regs).parser? t = r.parser? t := by
  induction regs using List.reverseRecOn with
  | nil => rfl
  | append_singleton regs reg ih =>
    rw [registers_append, registers_singleton, not_or] at h
    rw [registerAll_append]
    change ((r.registerAll regs).register reg.1 reg.2).parser? t = _
    rw [parser?_register, if_neg (Ne.symm h.2), ih h.1]

/-- Later registrations of other types leave the last one of a type in place. -/
theorem parser?_registerAll_of_last {r : ContentRegistry} {regs : List Registration} {t : String}
    {p : ContentParser} (h : LastFor regs t p) : (r.registerAll regs).parser? t = some p := by
  obtain ⟨earlier, later, rfl, hlater⟩ := h
  rw [registerAll_append]
  change (((r.registerAll earlier).register t p).registerAll later).parser? t = some p
  rw [parser?_registerAll_of_not hlater, parser?_register, if_pos rfl]

/-- A type is registered exactly when one of its registrations is the last one. -/
theorem registers_iff_last {regs : List Registration} {t : String} :
    Registers regs t ↔ ∃ p, LastFor regs t p := by
  constructor
  · intro h
    induction regs using List.reverseRecOn with
    | nil => simp [Registers] at h
    | append_singleton regs reg ih =>
      by_cases ht : reg.1 = t
      · exact ⟨reg.2, regs, [], by rw [← ht], by simp [Registers]⟩
      · rw [registers_append, registers_singleton, or_iff_left ht] at h
        obtain ⟨p, earlier, later, rfl, hlater⟩ := ih h
        refine ⟨p, earlier, later ++ [reg], by simp, ?_⟩
        rw [registers_append, registers_singleton]
        exact not_or.2 ⟨hlater, ht⟩
  · rintro ⟨p, earlier, later, rfl, -⟩
    exact ⟨(t, p), by simp, rfl⟩

/-- The parsers of the default registry are the built-in ones. -/
theorem parser?_base {base : Base} {t : String} {p : ContentParser} :
    base.registry.parser? t = some p ↔ BuiltIn base t p := by
  constructor
  · intro h
    cases base with
    | empty => cases h
    | standard =>
      have hmem := Dictionary.mem_of_get? h
      change (t, p) ∈ [("m.approval", ContentParser.ofWire .approval), ("m.dummy", .ofWire .dummy),
        ("m.forwarded_room_key", .ofWire .forwardedRoomKey),
        ("m.room.message", .ofWire .roomMessage), ("m.room_key", .ofWire .roomKey),
        ("m.room_key_request", .ofWire .roomKeyRequest)] at hmem
      simp only [List.mem_cons, List.not_mem_nil, or_false, Prod.mk.injEq] at hmem
      obtain ⟨rfl, rfl⟩ | ⟨rfl, rfl⟩ | ⟨rfl, rfl⟩ | ⟨rfl, rfl⟩ | ⟨rfl, rfl⟩ | ⟨rfl, rfl⟩ := hmem
      · exact .approval
      · exact .dummy
      · exact .forwardedRoomKey
      · exact .roomMessage
      · exact .roomKey
      · exact .roomKeyRequest
  · intro h
    cases h <;> rfl

theorem parser?_base_eq_none {base : Base} {t : String} (h : ∀ p, ¬ BuiltIn base t p) :
    base.registry.parser? t = none :=
  Option.eq_none_iff_forall_ne_some.2 fun p hp => h p (parser?_base.1 hp)

/-- A type is known exactly when the list registers it or the base knows it. -/
theorem isRegistered_registerAll {base : Base} {regs : List Registration} {t : String} :
    (base.registry.registerAll regs).isRegistered t = true ↔
      Registers regs t ∨ ∃ p, BuiltIn base t p := by
  simp only [isRegistered, Option.isSome_iff_exists]
  by_cases hreg : Registers regs t
  · obtain ⟨p, hp⟩ := registers_iff_last.1 hreg
    simp [parser?_registerAll_of_last hp, hreg]
  · simp only [parser?_registerAll_of_not hreg, parser?_base, hreg, false_or]

/-- Registries that agree on every type still agree after the same registrations. -/
theorem parser?_registerAll_congr {r r' : ContentRegistry} (h : ∀ t, r'.parser? t = r.parser? t)
    (regs : List Registration) (t : String) :
    (r'.registerAll regs).parser? t = (r.registerAll regs).parser? t := by
  by_cases hreg : Registers regs t
  · obtain ⟨p, hp⟩ := registers_iff_last.1 hreg
    rw [parser?_registerAll_of_last hp, parser?_registerAll_of_last hp]
  · rw [parser?_registerAll_of_not hreg, parser?_registerAll_of_not hreg, h]

/-- Two neighbouring registrations of different types can change places. -/
theorem parser?_registerAll_exchange (r : ContentRegistry) (earlier later : List Registration)
    {a b : Registration} (hne : a.1 ≠ b.1) (t : String) :
    (r.registerAll (earlier ++ b :: a :: later)).parser? t =
      (r.registerAll (earlier ++ a :: b :: later)).parser? t := by
  have hagree (t : String) :
      (((r.registerAll earlier).register b.1 b.2).register a.1 a.2).parser? t =
        (((r.registerAll earlier).register a.1 a.2).register b.1 b.2).parser? t := by
    simp only [parser?_register]
    by_cases ha : t = a.1
    · rw [if_pos ha, if_neg (ha ▸ hne), if_pos ha]
    · rw [if_neg ha, if_neg ha]
  rw [registerAll_append, registerAll_append]
  exact parser?_registerAll_congr hagree later t

/-! ## Dispatch -/

/-- How contents are read by the registry that a base became through a list of registrations. -/
structure Dispatches (base : Base) (regs : List Registration) : Prop where
  /-- The known types are those of the list and those of the base. -/
  registered_iff (t : String) :
    (base.registry.registerAll regs).isRegistered t = true ↔
      (∃ p, (t, p) ∈ regs) ∨ ∃ p, BuiltIn base t p
  /-- A type that is in the list is read by its last registration, and there is one. -/
  registered (t : String) : (∃ p, (t, p) ∈ regs) → ∃ p, LastFor regs t p ∧
    ∀ v, (base.registry.registerAll regs).parse t v = p v
  /-- A type that is only built in is read by the parser of the base. -/
  builtIn (t : String) (p : ContentParser) : (∀ q, (t, q) ∉ regs) → BuiltIn base t p →
    ∀ v, (base.registry.registerAll regs).parse t v = p v
  /-- Content of any other type is handed on unchanged. -/
  unknown (t : String) : (∀ q, (t, q) ∉ regs) → (∀ p, ¬ BuiltIn base t p) →
    ∀ v, (base.registry.registerAll regs).parse t v = .ok (.unknown v)
  /-- Only content of a known type can be refused. -/
  refused (t : String) (v : Json) (fault : Json.Fault) :
    (base.registry.registerAll regs).parse t v = .error fault →
      (base.registry.registerAll regs).isRegistered t = true
  /-- The order of two neighbouring registrations of different types does not matter. -/
  exchanged (earlier later : List Registration) (a b : Registration) :
    regs = earlier ++ a :: b :: later → a.1 ≠ b.1 → ∀ t v,
      (base.registry.registerAll (earlier ++ b :: a :: later)).parse t v =
        (base.registry.registerAll regs).parse t v

theorem registers_iff_mem {regs : List Registration} {t : String} :
    Registers regs t ↔ ∃ p, (t, p) ∈ regs := by
  simp [Registers]

theorem not_registers_iff {regs : List Registration} {t : String} :
    ¬ Registers regs t ↔ ∀ p, (t, p) ∉ regs := by
  rw [registers_iff_mem, not_exists]

/-- Contents are dispatched by the last registration of their type, else by the base, else kept
raw. -/
theorem dispatches (base : Base) (regs : List Registration) : Dispatches base regs where
  registered_iff t := by
    rw [isRegistered_registerAll, registers_iff_mem]
  registered t h := by
    obtain ⟨p, hp⟩ := registers_iff_last.1 (registers_iff_mem.2 h)
    refine ⟨p, hp, fun v => ?_⟩
    simp only [parse, parser?_registerAll_of_last hp]
  builtIn t p hregs hp v := by
    simp only [parse, parser?_registerAll_of_not (not_registers_iff.2 hregs), parser?_base.2 hp]
  unknown t hregs hbase v := by
    simp only [parse, parser?_registerAll_of_not (not_registers_iff.2 hregs),
      parser?_base_eq_none hbase, ContentParser.raw]
  refused t v fault h := by
    cases hp : (base.registry.registerAll regs).parser? t with
    | none => simp [parse, hp, ContentParser.raw] at h
    | some p => simp [isRegistered, hp]
  exchanged earlier later a b hregs hne t v := by
    simp only [hregs, parse, parser?_registerAll_exchange _ earlier later hne]

end ContentRegistry

end OlmReceiver
