import ModuleAudit.Proofs.ClassFile.Annotations
import ModuleAudit.Proofs.ClassFile.Instructions

/-! Class files as the format describes them. An index comes with the constant it names, so no class file here has
a broken index; what is left to ask of one is that every count and every length fits into its field. The main
statement: reading the bytes of a class file gives what it mentions, in the order of the file, whatever follows
the bytes. -/

namespace ModuleAudit.ClassFile.Format
set_option autoImplicit false

open Scan

/-! ## Handlers and local variables -/

/-- An exception handler with the offsets where its range starts and ends and where it is. -/
structure Handler (pool : List Entry) where
  start : UInt16
  stop : UInt16
  target : UInt16
  type : Option (ClassRef pool)

namespace Handler

variable {pool : List Entry}

def encode (handler : Handler pool) : Bytes :=
  ofU2 handler.start ++ ofU2 handler.stop ++ ofU2 handler.target ++ ofU2 (optionalIndex handler.type)

def events (handler : Handler pool) : List Event := [.handler (optionalName handler.type)]

end Handler

/-- A local variable with the range where it lives. -/
structure LocalVariable (pool : List Entry) where
  start : UInt16
  length : UInt16
  name : TextRef pool
  descriptor : TextRef pool
  slot : UInt16

namespace LocalVariable

variable {pool : List Entry}

def encode (item : LocalVariable pool) : Bytes :=
  ofU2 item.start ++ ofU2 item.length ++
    (ofU2 item.name.index ++ (ofU2 item.descriptor.index ++ ofU2 item.slot))

def events (item : LocalVariable pool) : List Event := [.localVariable item.name.text item.descriptor.text]

end LocalVariable

section

variable {pool : List Entry}

theorem reads_handler (item : Handler pool) : Reads (Code.handler (poolOf pool)) item.encode item.events () := by
  have hlength : (ofU2 item.start ++ ofU2 item.stop ++ ofU2 item.target).length = 6 := by
    rw [List.length_append, List.length_append, length_ofU2, length_ofU2, length_ofU2]
  exact (reads_skip hlength).then (reads_last_index (className?_poolOf item.type) (reads_report _))

theorem reads_localVariables {items : List (LocalVariable pool)} (h : items.length < 0x10000) :
    Reads (Code.localVariables (poolOf pool)) (counted 2 LocalVariable.encode items)
      (items.flatMap LocalVariable.events) () := by
  refine reads_counted h fun item _ => ?_
  have hlength : (ofU2 item.start ++ ofU2 item.length).length = 4 := by
    rw [List.length_append, length_ofU2, length_ofU2]
  have hslot : Reads (skip 2) (ofU2 item.slot) [] () := reads_skip (length_ofU2 item.slot)
  exact (reads_skip hlength).then (reads_index (utf8_poolOf item.name) (reads_index (utf8_poolOf item.descriptor)
    (hslot.ends (reads_report _))))

end

/-! ## Attributes -/

/-- The name of an attribute that is one of `names`. -/
structure KnownName (pool : List Entry) (names : List String) where
  ref : TextRef pool
  known : ref.text ∈ names

def plainNames : List String := ["RuntimeVisibleAnnotations", "RuntimeInvisibleAnnotations"]

def typeNames : List String := ["RuntimeVisibleTypeAnnotations", "RuntimeInvisibleTypeAnnotations"]

def parameterNames : List String := ["RuntimeVisibleParameterAnnotations", "RuntimeInvisibleParameterAnnotations"]

/-- The attributes of a class or a field that mention types. -/
def memberNames : List String := plainNames ++ typeNames

/-- The attributes of a method that mention types. -/
def methodNames : List String := ["Code", "AnnotationDefault"] ++ parameterNames ++ memberNames

/-- The attributes of code that mention types. -/
def codeNames : List String := "LocalVariableTable" :: typeNames

/-- An attribute by the index of its name and its body. -/
def encodeAttribute {pool : List Entry} (name : TextRef pool) (body : Bytes) : Bytes :=
  ofU2 name.index ++ (big 4 body.length ++ body)

theorem KnownName.ne {pool : List Entry} {names : List String} (name : KnownName pool names) {other : String}
    (h : other ∉ names) : name.ref.text ≠ other :=
  fun e => h (e ▸ name.known)

theorem KnownName.either {pool : List Entry} {first second : String} (name : KnownName pool [first, second]) :
    name.ref.text = first ∨ name.ref.text = second := by
  have hknown := name.known
  rwa [List.mem_cons, List.mem_singleton] at hknown

/-- Counted attributes, given that the scan reads each body by its name. -/
theorem reads_attributes {pool : List Entry} {ι : Type} {name : ι → TextRef pool} {body : ι → Bytes}
    {events : ι → List Event} {items : List ι} {next : String × Bytes → Scan Unit}
    (hcount : items.length < 0x10000)
    (h : ∀ item ∈ items, (body item).length < 0x100000000 ∧
      Reads (next ((name item).text, body item)) [] (events item) ()) :
    Reads (u2 >>= fun count => times count (attributeEntry (poolOf pool) >>= next))
      (counted 2 (fun item => encodeAttribute (name item) (body item)) items) (items.flatMap events) () := by
  refine reads_counted hcount fun item hmem => ?_
  obtain ⟨hlength, hbody⟩ := h item hmem
  have hentry : Reads (attributeEntry (poolOf pool)) (encodeAttribute (name item) (body item)) []
      ((name item).text, body item) :=
    reads_index (utf8_poolOf (name item))
      ((reads_number hlength).then ((reads_take (body item)).returns (reads_pure _)))
  exact hentry.ends hbody

/-! ## Code -/

/-- An attribute of code. Attributes of other names mention nothing. -/
inductive CodeAttribute (pool : List Entry) where
  | locals (name : KnownName pool ["LocalVariableTable"]) (items : List (LocalVariable pool))
  | typeUses (name : KnownName pool typeNames) (uses : List (TypeAnnotationUse pool))
  | other (name : TextRef pool) (unknown : name.text ∉ codeNames) (body : Bytes)

namespace CodeAttribute

variable {pool : List Entry}

def name : CodeAttribute pool → TextRef pool
  | .locals name _ => name.ref
  | .typeUses name _ => name.ref
  | .other name _ _ => name

def body : CodeAttribute pool → Bytes
  | .locals _ items => counted 2 LocalVariable.encode items
  | .typeUses _ uses => encodeTypeUses uses
  | .other _ _ body => body

def events : CodeAttribute pool → List Event
  | .locals _ items => items.flatMap LocalVariable.events
  | .typeUses _ uses => uses.flatMap TypeAnnotationUse.events
  | .other _ _ _ => []

/-- The counts inside the body fit. -/
def bodyFits : CodeAttribute pool → Bool
  | .locals _ items => decide (items.length < 0x10000)
  | .typeUses _ uses => typeUsesFit uses
  | .other _ _ _ => true

def fits (item : CodeAttribute pool) : Bool := decide (item.body.length < 0x100000000) && item.bodyFits

end CodeAttribute

/-- The code of a method. -/
structure CodeBody (pool : List Entry) where
  maxStack : UInt16
  maxLocals : UInt16
  instructions : List (Instruction pool)
  handlers : List (Handler pool)
  attributes : List (CodeAttribute pool)

namespace CodeBody

variable {pool : List Entry}

def encode (code : CodeBody pool) : Bytes :=
  ofU2 code.maxStack ++ ofU2 code.maxLocals ++
    (big 4 (Instruction.encodeFrom 0 code.instructions).length ++ (Instruction.encodeFrom 0 code.instructions ++
      (counted 2 Handler.encode code.handlers ++
        counted 2 (fun item => encodeAttribute item.name item.body) code.attributes)))

def events (code : CodeBody pool) : List Event :=
  code.instructions.flatMap Instruction.events ++
    (code.handlers.flatMap Handler.events ++ code.attributes.flatMap CodeAttribute.events)

def fits (code : CodeBody pool) : Bool :=
  decide ((Instruction.encodeFrom 0 code.instructions).length < 0x100000000) &&
    decide (code.handlers.length < 0x10000) && decide (code.attributes.length < 0x10000) &&
    code.attributes.all CodeAttribute.fits

end CodeBody

section

variable {pool : List Entry}

theorem reads_codeAttribute {item : CodeAttribute pool} (h : item.fits) :
    item.body.length < 0x100000000 ∧
      Reads (if item.name.text = "LocalVariableTable" then within item.body (Code.localVariables (poolOf pool))
        else if item.name.text = "RuntimeVisibleTypeAnnotations" ∨
            item.name.text = "RuntimeInvisibleTypeAnnotations" then
          within item.body (Annotations.ofTypes (poolOf pool))
        else pure ()) [] item.events () := by
  rw [CodeAttribute.fits, Bool.and_eq_true, decide_eq_true_eq] at h
  refine ⟨h.1, ?_⟩
  cases item with
  | locals name items =>
    have hname : name.ref.text = "LocalVariableTable" := List.mem_singleton.mp name.known
    rw [CodeAttribute.name, if_pos hname]
    exact (reads_localVariables (of_decide_eq_true h.2)).within
  | typeUses name uses =>
    rw [CodeAttribute.name, if_neg (name.ne (by decide)), if_pos name.either]
    exact (reads_ofTypes h.2).within
  | other name unknown body =>
    rw [codeNames, typeNames, List.mem_cons, List.mem_cons, List.mem_singleton, not_or] at unknown
    rw [CodeAttribute.name, if_neg unknown.1, if_neg unknown.2]
    exact reads_pure ()

theorem reads_code {code : CodeBody pool} (h : code.fits) :
    Reads (Code.scan (poolOf pool)) code.encode code.events () := by
  simp only [CodeBody.fits, Bool.and_eq_true, decide_eq_true_eq] at h
  obtain ⟨⟨⟨hlength, hhandlers⟩, hcount⟩, hall⟩ := h
  have hlimits : (ofU2 code.maxStack ++ ofU2 code.maxLocals).length = 4 := by
    rw [List.length_append, length_ofU2, length_ofU2]
  refine (reads_skip hlimits).then ((reads_number hlength).then ((reads_take _).then
    ((reads_instructions code.instructions).bind ?_)))
  refine reads_counted_bind hhandlers (fun item _ => reads_handler item) ?_
  exact reads_attributes hcount fun item hmem => reads_codeAttribute (List.all_eq_true.mp hall item hmem)

end

/-! ## Attributes of classes and members -/

/-- An attribute of a class or a member. Attributes of other names than the `known` ones mention nothing. -/
inductive MemberAttribute (pool : List Entry) (known : List String) where
  | uses (name : KnownName pool plainNames) (items : List (AnnotationUse pool))
  | typeUses (name : KnownName pool typeNames) (items : List (TypeAnnotationUse pool))
  | other (name : TextRef pool) (unknown : name.text ∉ known) (body : Bytes)

namespace MemberAttribute

variable {pool : List Entry} {known : List String}

def name : MemberAttribute pool known → TextRef pool
  | .uses name _ => name.ref
  | .typeUses name _ => name.ref
  | .other name _ _ => name

def body : MemberAttribute pool known → Bytes
  | .uses _ items => encodeUses items
  | .typeUses _ items => encodeTypeUses items
  | .other _ _ body => body

def events (site : AnnotationSite) : MemberAttribute pool known → List Event
  | .uses _ items => items.flatMap (AnnotationUse.events site)
  | .typeUses _ items => items.flatMap TypeAnnotationUse.events
  | .other _ _ _ => []

/-- The counts inside the body fit. -/
def bodyFits : MemberAttribute pool known → Bool
  | .uses _ items => usesFit items
  | .typeUses _ items => typeUsesFit items
  | .other _ _ _ => true

def fits (item : MemberAttribute pool known) : Bool := decide (item.body.length < 0x100000000) && item.bodyFits

end MemberAttribute

theorem reads_memberAttribute {pool : List Entry} {known : List String} (hknown : ∀ name ∈ memberNames, name ∈ known)
    (site : AnnotationSite) {item : MemberAttribute pool known} (h : item.fits) :
    item.body.length < 0x100000000 ∧
      Reads (annotationAttribute (poolOf pool) site item.name.text item.body) [] (item.events site) () := by
  rw [MemberAttribute.fits, Bool.and_eq_true, decide_eq_true_eq] at h
  refine ⟨h.1, ?_⟩
  rw [annotationAttribute]
  cases item with
  | uses name items =>
    rw [MemberAttribute.name, if_pos name.either]
    exact (reads_uses site h.2).within
  | typeUses name items =>
    have hplain : ¬(name.ref.text = "RuntimeVisibleAnnotations" ∨
        name.ref.text = "RuntimeInvisibleAnnotations") :=
      not_or.mpr ⟨name.ne (by decide), name.ne (by decide)⟩
    rw [MemberAttribute.name, if_neg hplain, if_pos name.either]
    exact (reads_ofTypes h.2).within
  | other name unknown body =>
    have hne : ∀ other ∈ memberNames, name.text ≠ other := by
      intro other hmem e
      exact unknown (e ▸ hknown other hmem)
    rw [MemberAttribute.name, if_neg (not_or.mpr ⟨hne _ (by decide), hne _ (by decide)⟩),
      if_neg (not_or.mpr ⟨hne _ (by decide), hne _ (by decide)⟩)]
    exact reads_pure ()

/-- An attribute of a method. -/
inductive MethodAttribute (pool : List Entry) where
  | code (name : KnownName pool ["Code"]) (content : CodeBody pool)
  | parameterUses (name : KnownName pool parameterNames) (parameters : List (List (AnnotationUse pool)))
  | defaultValue (name : KnownName pool ["AnnotationDefault"]) (value : ElementValue pool)
  | common (item : MemberAttribute pool methodNames)

namespace MethodAttribute

variable {pool : List Entry}

def name : MethodAttribute pool → TextRef pool
  | .code name _ => name.ref
  | .parameterUses name _ => name.ref
  | .defaultValue name _ => name.ref
  | .common item => item.name

def body : MethodAttribute pool → Bytes
  | .code _ content => content.encode
  | .parameterUses _ parameters => counted 1 encodeUses parameters
  | .defaultValue _ value => value.encode
  | .common item => item.body

def events : MethodAttribute pool → List Event
  | .code _ content => content.events
  | .parameterUses _ parameters => parameters.flatMap fun uses => uses.flatMap (AnnotationUse.events .parameter)
  | .defaultValue _ value => value.events .defaultValue
  | .common item => item.events .ofMethod

/-- The counts inside the body fit. -/
def bodyFits : MethodAttribute pool → Bool
  | .code _ content => content.fits
  | .parameterUses _ parameters => decide (parameters.length < 0x100) && parameters.all usesFit
  | .defaultValue _ value => value.fits
  | .common item => item.fits

def fits (item : MethodAttribute pool) : Bool := decide (item.body.length < 0x100000000) && item.bodyFits

end MethodAttribute

/-- The names that only attributes of methods have. -/
theorem MemberAttribute.name_ne {pool : List Entry} (item : MemberAttribute pool methodNames) {other : String}
    (hmethod : other ∈ methodNames) (hmember : other ∉ memberNames) : item.name.text ≠ other := by
  intro e
  cases item with
  | uses name items => exact hmember (List.mem_append_left _ (e ▸ name.known))
  | typeUses name items => exact hmember (List.mem_append_right _ (e ▸ name.known))
  | other name unknown body => exact unknown (e ▸ hmethod)

theorem reads_methodAttribute {pool : List Entry} {item : MethodAttribute pool} (h : item.fits) :
    item.body.length < 0x100000000 ∧
      Reads (if item.name.text = "Code" then within item.body (Code.scan (poolOf pool))
        else if item.name.text = "RuntimeVisibleParameterAnnotations" ∨
            item.name.text = "RuntimeInvisibleParameterAnnotations" then
          within item.body (Annotations.ofParameters (poolOf pool))
        else if item.name.text = "AnnotationDefault" then
          within item.body (Annotations.element (poolOf pool) .defaultValue)
        else annotationAttribute (poolOf pool) .ofMethod item.name.text item.body) [] item.events () := by
  rw [MethodAttribute.fits, Bool.and_eq_true, decide_eq_true_eq] at h
  refine ⟨h.1, ?_⟩
  cases item with
  | code name content =>
    have hname : name.ref.text = "Code" := List.mem_singleton.mp name.known
    rw [MethodAttribute.name, if_pos hname]
    exact (reads_code h.2).within
  | parameterUses name parameters =>
    obtain ⟨hcount, hall⟩ : parameters.length < 0x100 ∧ parameters.all usesFit = true := by
      have hparameters := h.2
      rwa [MethodAttribute.bodyFits, Bool.and_eq_true, decide_eq_true_eq] at hparameters
    rw [MethodAttribute.name, if_neg (name.ne (by decide)), if_pos name.either]
    exact (reads_ofParameters hcount hall).within
  | defaultValue name value =>
    have hname : name.ref.text = "AnnotationDefault" := List.mem_singleton.mp name.known
    rw [MethodAttribute.name, if_neg (name.ne (by decide)),
      if_neg (not_or.mpr ⟨name.ne (by decide), name.ne (by decide)⟩), if_pos hname]
    exact (reads_element .defaultValue h.2).within
  | common item =>
    have hne : ∀ other ∈ methodNames, other ∉ memberNames → item.name.text ≠ other :=
      fun _ hmethod hmember => item.name_ne hmethod hmember
    rw [MethodAttribute.name, if_neg (hne _ (by decide) (by decide)),
      if_neg (not_or.mpr ⟨hne _ (by decide) (by decide), hne _ (by decide) (by decide)⟩),
      if_neg (hne _ (by decide) (by decide))]
    exact (reads_memberAttribute (fun name hmem => List.mem_append_right _ hmem) .ofMethod h.2).2

/-! ## Classes -/

/-- A field or a method. -/
structure Member (pool : List Entry) (Attribute : Type) where
  access : UInt16
  name : TextRef pool
  descriptor : TextRef pool
  attributes : List Attribute

/-- A member, given how its attributes are written. -/
def Member.encode {pool : List Entry} {Attribute : Type} (encodeItem : Attribute → Bytes)
    (member : Member pool Attribute) : Bytes :=
  ofU2 member.access ++ (ofU2 member.name.index ++ (ofU2 member.descriptor.index ++
    counted 2 encodeItem member.attributes))

abbrev Field (pool : List Entry) : Type := Member pool (MemberAttribute pool memberNames)

abbrev Method (pool : List Entry) : Type := Member pool (MethodAttribute pool)

def encodeField {pool : List Entry} (field : Field pool) : Bytes :=
  field.encode fun item => encodeAttribute item.name item.body

def encodeMethod {pool : List Entry} (method : Method pool) : Bytes :=
  method.encode fun item => encodeAttribute item.name item.body

def eventsOfField {pool : List Entry} (field : Field pool) : List Event :=
  .field field.access.toNat field.name.text field.descriptor.text ::
    field.attributes.flatMap (MemberAttribute.events .ofField)

def eventsOfMethod {pool : List Entry} (method : Method pool) : List Event :=
  .method method.access.toNat method.name.text method.descriptor.text ::
    method.attributes.flatMap MethodAttribute.events

def fieldFits {pool : List Entry} (field : Field pool) : Bool :=
  decide (field.attributes.length < 0x10000) && field.attributes.all MemberAttribute.fits

def methodFits {pool : List Entry} (method : Method pool) : Bool :=
  decide (method.attributes.length < 0x10000) && method.attributes.all MethodAttribute.fits

section

variable {pool : List Entry}

theorem reads_field {item : Field pool} (h : fieldFits item) :
    Reads (ClassFile.field (poolOf pool)) (encodeField item) (eventsOfField item) () := by
  rw [fieldFits, Bool.and_eq_true, decide_eq_true_eq] at h
  refine (reads_u2 item.access).then (reads_index (utf8_poolOf item.name)
    (reads_index (utf8_poolOf item.descriptor) (Reads.reporting ?_)))
  exact reads_attributes h.1 fun extra hmem =>
    reads_memberAttribute (fun _ hknown => hknown) .ofField (List.all_eq_true.mp h.2 extra hmem)

theorem reads_method {item : Method pool} (h : methodFits item) :
    Reads (ClassFile.method (poolOf pool)) (encodeMethod item) (eventsOfMethod item) () := by
  rw [methodFits, Bool.and_eq_true, decide_eq_true_eq] at h
  refine (reads_u2 item.access).then (reads_index (utf8_poolOf item.name)
    (reads_index (utf8_poolOf item.descriptor) (Reads.reporting ?_)))
  exact reads_attributes h.1 fun extra hmem => reads_methodAttribute (List.all_eq_true.mp h.2 extra hmem)

end

/-- A class file. -/
structure Class where
  minorVersion : UInt16
  majorVersion : UInt16
  pool : List Entry
  access : UInt16
  name : ClassRef pool
  superclass : Option (ClassRef pool)
  interfaces : List (ClassRef pool)
  fields : List (Field pool)
  methods : List (Method pool)
  attributes : List (MemberAttribute pool memberNames)

namespace Class

/-- The bytes of a class file. -/
def encode (file : Class) : Bytes :=
  ofU4 0xCAFEBABE ++ (ofU2 file.minorVersion ++ ofU2 file.majorVersion ++
    (big 2 (indices file.pool + 1) ++ file.pool.flatMap Entry.encode ++
      (ofU2 file.access ++ (ofU2 file.name.index ++ (ofU2 (optionalIndex file.superclass) ++
          counted 2 (fun ref => ofU2 ref.index) file.interfaces)) ++
        (counted 2 encodeField file.fields ++ (counted 2 encodeMethod file.methods ++
          counted 2 (fun item => encodeAttribute item.name item.body) file.attributes)))))

/-- What a class file mentions, in the order of the file. -/
def events (file : Class) : List Event :=
  .header file.access.toNat file.name.name.text (optionalName file.superclass)
      (file.interfaces.map (·.name.text)) ::
    (file.fields.flatMap eventsOfField ++ (file.methods.flatMap eventsOfMethod ++
      file.attributes.flatMap (MemberAttribute.events .ofClass)))

/-- Every count and every length fits into its field. -/
def fits (file : Class) : Bool :=
  decide (indices file.pool + 1 < 0x10000) && file.pool.all Entry.fits &&
    decide (file.interfaces.length < 0x10000) &&
    decide (file.fields.length < 0x10000) && file.fields.all fieldFits &&
    decide (file.methods.length < 0x10000) && file.methods.all methodFits &&
    decide (file.attributes.length < 0x10000) && file.attributes.all MemberAttribute.fits

end Class

end ModuleAudit.ClassFile.Format

namespace ModuleAudit.ClassFile
set_option autoImplicit false

open Scan Format

theorem reads_header {pool : List Entry} (access : UInt16) (name : ClassRef pool) (superclass : Option (ClassRef pool))
    {interfaces : List (ClassRef pool)} (hcount : interfaces.length < 0x10000) :
    Reads (header (poolOf pool))
      (ofU2 access ++ (ofU2 name.index ++ (ofU2 (optionalIndex superclass) ++
        counted 2 (fun ref => ofU2 ref.index) interfaces)))
      [.header access.toNat name.name.text (optionalName superclass) (interfaces.map (·.name.text))] () := by
  have hnames : Reads (collect interfaces.length (u2 >>= fun found => answer ((poolOf pool).className found)))
      (interfaces.flatMap fun ref => ofU2 ref.index) [] (interfaces.map (·.name.text)) :=
    reads_collect interfaces fun ref _ => (reads_u2 ref.index).ends (reads_answer (className_poolOf ref))
  exact (reads_u2 access).then ((reads_u2 name.index).then ((reads_u2 (optionalIndex superclass)).then
    ((reads_number hcount).then (hnames.ends ((reads_answer (className_poolOf name)).after
      ((reads_answer (className?_poolOf superclass)).after (reads_report _)))))))

theorem reads_classFile {file : Format.Class} (h : file.fits) : Reads classFile file.encode file.events () := by
  simp only [Format.Class.fits, Bool.and_eq_true, decide_eq_true_eq] at h
  obtain ⟨⟨⟨⟨⟨⟨⟨⟨hindices, hpool⟩, hinterfaces⟩, hfieldCount⟩, hfields⟩, hmethodCount⟩, hmethods⟩, hcount⟩, hall⟩ := h
  have hversion : (ofU2 file.minorVersion ++ ofU2 file.majorVersion).length = 4 := by
    rw [List.length_append, length_ofU2, length_ofU2]
  have hheader := reads_header file.access file.name file.superclass hinterfaces
  refine (reads_u4 0xCAFEBABE).then ?_
  refine (reads_skip hversion).then ((reads_pool hpool hindices).then (hheader.bind ?_))
  refine reads_counted_bind hfieldCount (fun item hmem => reads_field (List.all_eq_true.mp hfields item hmem)) ?_
  refine reads_counted_bind hmethodCount (fun item hmem => reads_method (List.all_eq_true.mp hmethods item hmem)) ?_
  exact reads_attributes hcount fun extra hmem =>
    reads_memberAttribute (fun _ hknown => hknown) .ofClass (List.all_eq_true.mp hall extra hmem)

/-- Reading the bytes of a class file gives what it mentions. -/
theorem read_encode (file : Format.Class) (h : file.fits) (trailing : Bytes) :
    read (file.encode ++ trailing) = ⟨file.events, none⟩ := by
  rw [read, reads_classFile h trailing]

/-! ## A class file -/

namespace Format

/-- The constants of a class with one method. The constant of eight bytes takes the indices three and four. -/
def runnerPool : List Entry :=
  [.utf8 "a/Runner", .classRef 1, .long 0 7, .utf8 "Code", .utf8 "run", .utf8 "()V", .nameAndType 6 7,
    .methodRef 2 8, .utf8 "La/Tag;", .utf8 "RuntimeVisibleAnnotations", .utf8 "RuntimeInvisibleTypeAnnotations",
    .utf8 "AnnotationDefault", .utf8 "Signature"]

def runnerClass : ClassRef runnerPool := ⟨2, ⟨1, "a/Runner", rfl⟩, rfl⟩

def runnerTag : TextRef runnerPool := ⟨10, "La/Tag;", rfl⟩

def runnerCall : MemberRef runnerPool :=
  ⟨9, runnerClass, ⟨8, ⟨6, "run", rfl⟩, ⟨7, "()V", rfl⟩, rfl⟩, by decide⟩

/-- A switch that is not aligned, a widened load and a call, below a handler of everything. -/
def runnerCode : CodeBody runnerPool where
  maxStack := 2
  maxLocals := 1
  instructions := [.plain 0x03 [] rfl, .tableSwitch 20 (-1) 0 [24, 28] (by decide) (by decide),
    .wide 0x15 300 (by decide), .loadTwoSlots (.value 3 (.long 0 7) rfl rfl), .invoke .static runnerCall,
    .plain 0xB1 [] rfl]
  handlers := [⟨0, 4, 8, none⟩]
  attributes := [.typeUses ⟨⟨12, "RuntimeInvisibleTypeAnnotations", rfl⟩, by decide⟩
    [⟨.localVariable [⟨0, 4, 0⟩], [(0, 0)], ⟨runnerTag, []⟩⟩]]

def runner : Class where
  minorVersion := 0
  majorVersion := 61
  pool := runnerPool
  access := 0x21
  name := runnerClass
  superclass := none
  interfaces := [runnerClass]
  fields := [⟨2, ⟨6, "run", rfl⟩, ⟨7, "()V", rfl⟩, [.other ⟨14, "Signature", rfl⟩ (by decide) [0, 7]]⟩]
  methods := [⟨1, ⟨6, "run", rfl⟩, ⟨7, "()V", rfl⟩,
    [.code ⟨⟨5, "Code", rfl⟩, by decide⟩ runnerCode,
      .defaultValue ⟨⟨13, "AnnotationDefault", rfl⟩, by decide⟩
        (.array [.nested runnerTag [(6, .classLiteral runnerTag)], .constant .int 3])]⟩]
  attributes := [.uses ⟨⟨11, "RuntimeVisibleAnnotations", rfl⟩, by decide⟩ [⟨runnerTag, []⟩]]

end Format

theorem read_encode_runner : runner.fits = true ∧ read (runner.encode ++ [0xCA, 0xFE]) =
    ⟨[.header 0x21 "a/Runner" none ["a/Runner"], .field 2 "run" "()V", .method 1 "run" "()V", .load .other,
      .methodUse 0xB8 "a/Runner" "run" "()V", .handler none, .annotated .localVariable "La/Tag;",
      .annotated .defaultValue "La/Tag;", .classLiteral "La/Tag;", .annotated .ofClass "La/Tag;"], none⟩ := by
  have hfits : runner.fits = true := by decide +kernel
  exact ⟨hfits, read_encode runner hfits [0xCA, 0xFE]⟩

end ModuleAudit.ClassFile
