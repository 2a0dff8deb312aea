import RazenLint.Proofs.Json.Decode
import RazenLint.Proofs.Session.History

/-!
# What requests ask for

The command of a request, read off its method and its parameters (`Command.AskedBy`,
`Command.ofRequest_eq_ok_iff`). Parameters give texts (`Json.Gives`) as the members of an object,
whatever else it holds, or as all the items of a list.

With these `LastOpened` speaks of requests : `InputLine.opens_iff` says which lines open a
document with a text, and `InputLine.settles_iff` which lines decide what is remembered of it.
-/

namespace RazenLint

open Json

namespace Json

/-- A value that gives texts for some fields, under their names or in turn. -/
inductive Gives (given : List (String × String)) : Json → Prop
  | named {members : List (String × Json)}
    (hmembers : ∀ field ∈ given, members.lookup field.1 = some (.text field.2)) :
    Gives given (.object members)
  | inOrder : Gives given (.list (given.map fun field => .text field.2))

theorem bind_eq_ok_iff {α β : Type} {outcome : Decoded α} {next : α → Decoded β} {b : β} :
    outcome >>= next = .ok b ↔ ∃ a, outcome = .ok a ∧ next a = .ok b := by
  cases outcome <;> simp [bind, Except.bind]

theorem asText_eq_ok_iff {value : Json} {s : String} : value.asText = .ok s ↔ value = .text s := by
  cases value <;> simp [asText, notA]

namespace Record

variable {record : Record} {name : String}

theorem required_eq_ok_iff {α : Type} {outcome : Option (Decoded α)} {a : α} :
    record.required name outcome = .ok a ↔ outcome = some (.ok a) := by
  cases outcome <;> simp [required]

theorem field_asText_eq_ok_iff {s : String} :
    record.field name asText = some (.ok s) ↔ record.fields.lookup name = some (.text s) := by
  rw [field]
  cases record.fields.lookup name <;> simp [asText_eq_ok_iff]

end Record

/-- Items stand in turn for fields when each field finds its own and none is left over. -/
theorem eq_map_iff_lookup_zip {given : List (String × String)} (hnames : (given.map Prod.fst).Nodup)
    {items : List Json} :
    items = given.map (fun field => .text field.2) ↔ items.length ≤ given.length ∧
      ∀ field ∈ given, ((given.map Prod.fst).zip items).lookup field.1 = some (.text field.2) := by
  induction given generalizing items with
  | nil => simp
  | cons first given ih =>
    obtain ⟨hfirst, hrest⟩ := List.nodup_cons.1 hnames
    cases items with
    | nil => exact ⟨nofun, fun ⟨_, hfields⟩ => absurd (hfields first List.mem_cons_self) (by simp)⟩
    | cons item items =>
      have hother : ∀ field ∈ given, (field.1 == first.1) = false := fun field hfield =>
        beq_false_of_ne fun heq => hfirst (heq ▸ List.mem_map_of_mem hfield)
      have hlookup : (∀ field ∈ given,
          (((first :: given).map Prod.fst).zip (item :: items)).lookup field.1 =
            some (.text field.2)) ↔
          ∀ field ∈ given, ((given.map Prod.fst).zip items).lookup field.1 =
            some (.text field.2) :=
        forall₂_congr fun field hfield => by
          rw [List.map_cons, List.zip_cons_cons, List.lookup_cons, hother field hfield]
      rw [List.forall_mem_cons, hlookup, List.map_cons, List.cons.injEq, ih hrest]
      simp only [List.map_cons, List.zip_cons_cons, List.lookup_cons_self, Option.some.injEq,
        List.length_cons, Nat.add_le_add_iff_right]
      exact ⟨fun ⟨hitem, hlength, hfields⟩ => ⟨hlength, hitem, hfields⟩,
        fun ⟨hlength, hitem, hfields⟩ => ⟨hitem, hlength, hfields⟩⟩

/-- A value gives texts for the fields of a record when the record has them in its fields and
nothing is left over. -/
theorem gives_iff_asRecord (type : RecordType) {given : List (String × String)}
    (htype : type.fields = given.map Prod.fst) (hnames : type.fields.Nodup) {value : Json} :
    value.Gives given ↔ ∃ record, value.asRecord type = .ok record ∧ record.finish = .ok () ∧
      ∀ field ∈ given, record.field field.1 asText = some (.ok field.2) := by
  simp only [Record.field_asText_eq_ok_iff]
  constructor
  · rintro (@⟨members, hmembers⟩ | ⟨⟩)
    · obtain ⟨record, hrecord, hnamed, hfields⟩ := exists_asRecord_object type members
      refine ⟨record, hrecord, Record.finish_eq_ok hnamed, fun field hfield => ?_⟩
      rw [hfields field.1 (htype ▸ List.mem_map_of_mem hfield), hmembers field hfield]
    · have hitems := (eq_map_iff_lookup_zip (htype ▸ hnames)).1 rfl
      refine ⟨_, rfl, by simp [Record.finish, htype], ?_⟩
      rw [htype]
      exact hitems.2
  · rintro ⟨record, hrecord, hfinish, hlookup⟩
    cases value with
    | object members =>
      obtain ⟨_, hobject, -, hfields⟩ := exists_asRecord_object type members
      obtain rfl := Except.ok.inj (hobject.symm.trans hrecord)
      refine .named fun field hfield => ?_
      rw [← hfields field.1 (htype ▸ List.mem_map_of_mem hfield), hlookup field hfield]
    | list items =>
      obtain rfl := Except.ok.inj hrecord
      have hlength : items.length ≤ given.length := by
        by_contra h
        rw [Record.finish, if_pos (by simpa [htype] using h)] at hfinish
        cases hfinish
      rw [htype] at hlookup
      rw [(eq_map_iff_lookup_zip (htype ▸ hnames)).2 ⟨hlength, hlookup⟩]
      exact .inOrder
    | null | bool _ | number _ | text _ => cases hrecord

end Json

namespace Command

/-! ## Parameters -/

/-- What a decoder of two fields went through when it succeeded. -/
theorem exists_of_fields_eq_ok {α β : Type} {given : Decoded Record}
    {check : Record → Decoded Unit} {first : Record → Decoded α} {second : Record → Decoded β}
    {make : α → β → Command} {command : Command}
    (h : (do
      let record ← given
      check record
      let a ← first record
      let b ← second record
      record.finish
      return make a b) = .ok command) :
    ∃ record a b, given = .ok record ∧ first record = .ok a ∧ second record = .ok b ∧
      record.finish = .ok () ∧ command = make a b := by
  obtain ⟨record, hrecord, h⟩ := bind_eq_ok_iff.1 h
  obtain ⟨⟨⟩, -, h⟩ := bind_eq_ok_iff.1 h
  obtain ⟨a, hfirst, h⟩ := bind_eq_ok_iff.1 h
  obtain ⟨b, hsecond, h⟩ := bind_eq_ok_iff.1 h
  obtain ⟨⟨⟩, hfinish, h⟩ := bind_eq_ok_iff.1 h
  exact ⟨record, a, b, hrecord, hfirst, hsecond, hfinish, (Except.ok.inj h).symm⟩

/-- The parameters that open a document are its name and a text. -/
theorem openOfJson_eq_ok_iff {params : Json} {command : Command} :
    openOfJson params = .ok command ↔ ∃ name text, command = .open name text ∧
      params.Gives [("document", name), ("text", text)] := by
  have hgives (name text : String) : params.Gives [("document", name), ("text", text)] ↔ _ :=
    gives_iff_asRecord textRecordType rfl (by decide)
  simp only [List.forall_mem_cons, List.not_mem_nil, false_implies, implies_true,
    and_true] at hgives
  simp only [hgives]
  constructor
  · intro h
    obtain ⟨record, name, text, hrecord, hname, htext, hfinish, rfl⟩ := exists_of_fields_eq_ok h
    exact ⟨name, text, rfl, record, hrecord, hfinish, Record.required_eq_ok_iff.1 hname,
      Record.required_eq_ok_iff.1 htext⟩
  · rintro ⟨name, text, rfl, record, hrecord, hfinish, hname, htext⟩
    rw [openOfJson, hrecord]
    simp [hname, htext, Record.firstProblem_eq_ok, hfinish]

/-- The parameters that stand for a document are its name. -/
theorem documentOfJson_eq_ok_iff {params : Json} {name : String} :
    documentOfJson params = .ok name ↔ params.Gives [("document", name)] := by
  rw [gives_iff_asRecord documentRecordType rfl (by decide)]
  simp only [List.forall_mem_cons, List.not_mem_nil, false_implies, implies_true, and_true]
  constructor
  · intro h
    obtain ⟨record, hrecord, h⟩ := bind_eq_ok_iff.1 h
    obtain ⟨-, -, h⟩ := bind_eq_ok_iff.1 h
    obtain ⟨found, hname, h⟩ := bind_eq_ok_iff.1 h
    obtain ⟨⟨⟩, hfinish, h⟩ := bind_eq_ok_iff.1 h
    obtain rfl : found = name := Except.ok.inj h
    exact ⟨record, hrecord, hfinish, Record.required_eq_ok_iff.1 hname⟩
  · rintro ⟨record, hrecord, hfinish, hname⟩
    rw [documentOfJson, hrecord]
    simp [hname, Record.firstProblem_eq_ok, hfinish]

theorem codeActionsOfJson_eq_ok {params : Json} {command : Command}
    (h : codeActionsOfJson params = .ok command) :
    ∃ name diagnostics, command = .codeActions name diagnostics := by
  obtain ⟨_, name, diagnostics, -, -, -, -, rfl⟩ := exists_of_fields_eq_ok h
  exact ⟨name, diagnostics, rfl⟩

theorem completionOfJson_eq_ok {params : Json} {command : Command}
    (h : completionOfJson params = .ok command) :
    ∃ name position, command = .completion name position := by
  obtain ⟨_, name, position, -, -, -, -, rfl⟩ := exists_of_fields_eq_ok h
  exact ⟨name, position, rfl⟩

/-! ## Requests -/

/-- A request asks for a command by the name of its method and with parameters of that method.
Those of the end of a session are not looked at. -/
inductive AskedBy (request : Request) : Command → Prop
  | «open» {name text : String} (hmethod : request.method = "open" ∨ request.method = "change")
    (hparams : request.params.Gives [("document", name), ("text", text)]) :
    AskedBy request (.open name text)
  | tokens {name : String} (hmethod : request.method = "tokens")
    (hparams : request.params.Gives [("document", name)]) : AskedBy request (.tokens name)
  | codeActions {name : String} {diagnostics : Option (List Diagnostic)}
    (hmethod : request.method = "codeActions")
    (hparams : codeActionsOfJson request.params = .ok (.codeActions name diagnostics)) :
    AskedBy request (.codeActions name diagnostics)
  | completion {name : String} {position : Position} (hmethod : request.method = "completion")
    (hparams : completionOfJson request.params = .ok (.completion name position)) :
    AskedBy request (.completion name position)
  | close {name : String} (hmethod : request.method = "close")
    (hparams : request.params.Gives [("document", name)]) : AskedBy request (.close name)
  | shutdown (hmethod : request.method = "shutdown") : AskedBy request .shutdown

variable {request : Request} {command : Command}

theorem ofRequest_eq_ok_iff_decoder : ofRequest request = .ok command ↔
    ∃ decode, decoder? request.method = some decode ∧ decode request.params = .ok command := by
  rw [ofRequest]
  cases decoder? request.method with
  | none => simp
  | some decode => cases h : decode request.params <;> simp [h]

theorem AskedBy.ofRequest (h : AskedBy request command) : ofRequest request = .ok command := by
  refine ofRequest_eq_ok_iff_decoder.2 ?_
  cases h with
  | «open» hmethod hparams =>
    exact ⟨openOfJson, if_pos hmethod, openOfJson_eq_ok_iff.2 ⟨_, _, rfl, hparams⟩⟩
  | tokens hmethod hparams =>
    refine ⟨_, by rw [hmethod]; rfl, ?_⟩
    rw [documentOfJson_eq_ok_iff.2 hparams]
    rfl
  | codeActions hmethod hparams => exact ⟨_, by rw [hmethod]; rfl, hparams⟩
  | completion hmethod hparams => exact ⟨_, by rw [hmethod]; rfl, hparams⟩
  | close hmethod hparams =>
    refine ⟨_, by rw [hmethod]; rfl, ?_⟩
    rw [documentOfJson_eq_ok_iff.2 hparams]
    rfl
  | shutdown hmethod => exact ⟨_, by rw [hmethod]; rfl, rfl⟩

theorem askedBy_of_ofRequest (h : ofRequest request = .ok command) : AskedBy request command := by
  obtain ⟨decode, hdecode, h⟩ := ofRequest_eq_ok_iff_decoder.1 h
  rw [decoder?] at hdecode
  split_ifs at hdecode with hopen htokens hactions hcompletion hclose hshutdown <;>
    obtain rfl := Option.some.inj hdecode
  · obtain ⟨name, text, rfl, hgives⟩ := openOfJson_eq_ok_iff.1 h
    exact .open hopen hgives
  · obtain ⟨name, hname, h⟩ := bind_eq_ok_iff.1 h
    obtain rfl := Except.ok.inj h
    exact .tokens htokens (documentOfJson_eq_ok_iff.1 hname)
  · obtain ⟨name, diagnostics, rfl⟩ := codeActionsOfJson_eq_ok h
    exact .codeActions hactions h
  · obtain ⟨name, position, rfl⟩ := completionOfJson_eq_ok h
    exact .completion hcompletion h
  · obtain ⟨name, hname, h⟩ := bind_eq_ok_iff.1 h
    obtain rfl := Except.ok.inj h
    exact .close hclose (documentOfJson_eq_ok_iff.1 hname)
  · obtain rfl := Except.ok.inj h
    exact .shutdown hshutdown

/-- A request gives the command that it asks for. -/
theorem ofRequest_eq_ok_iff : ofRequest request = .ok command ↔ AskedBy request command :=
  ⟨askedBy_of_ofRequest, AskedBy.ofRequest⟩

end Command

/-! ## Lines -/

namespace InputLine

variable {line : InputLine} {name text : String}

/-- A line gives the command that its request asks for. -/
theorem command?_eq_some_iff {command : Command} : line.command? = some command ↔
    ∃ request, line.content = .request request ∧ command.AskedBy request := by
  rw [command?]
  cases line.content with
  | blank => simp [LineContent.command?]
  | problem reason => simp [LineContent.command?]
  | request request =>
    simp only [LineContent.command?, LineContent.request.injEq, exists_eq_left',
      ← Command.ofRequest_eq_ok_iff]
    cases Command.ofRequest request <;> simp [Except.toOption]

/-- The lines that open a document with a text are the requests to open or change it that
give both. -/
theorem opens_iff : line.command? = some (.open name text) ↔
    ∃ request, line.content = .request request ∧
      (request.method = "open" ∨ request.method = "change") ∧
        request.params.Gives [("document", name), ("text", text)] := by
  rw [command?_eq_some_iff]
  refine exists_congr fun request => and_congr_right fun _ => ?_
  exact ⟨fun (.open hmethod hparams) => ⟨hmethod, hparams⟩,
    fun ⟨hmethod, hparams⟩ => .open hmethod hparams⟩

/-- The lines that end a session are the requests to do so, with any parameters. -/
theorem endsSession_iff : line.command? = some .shutdown ↔
    ∃ request, line.content = .request request ∧ request.method = "shutdown" := by
  rw [command?_eq_some_iff]
  refine exists_congr fun request => and_congr_right fun _ => ?_
  exact ⟨fun (.shutdown hmethod) => hmethod, .shutdown⟩

/-- The lines that decide whether a document is open are those that open, change or close it
and those that end the session. -/
theorem settles_iff : line.Settles name ↔ ∃ request, line.content = .request request ∧
    ((∃ text, (request.method = "open" ∨ request.method = "change") ∧
        request.params.Gives [("document", name), ("text", text)]) ∨
      (request.method = "close" ∧ request.params.Gives [("document", name)]) ∨
      request.method = "shutdown") := by
  simp only [Settles, command?_eq_some_iff]
  constructor
  · rintro ⟨command, ⟨request, hcontent, hasked⟩, hsettles⟩
    refine ⟨request, hcontent, ?_⟩
    cases hasked with
    | «open» hmethod hparams => exact .inl ⟨_, hmethod, hsettles ▸ hparams⟩
    | close hmethod hparams => exact .inr (.inl ⟨hmethod, hsettles ▸ hparams⟩)
    | shutdown hmethod => exact .inr (.inr hmethod)
    | tokens | codeActions | completion => exact hsettles.elim
  · rintro ⟨request, hcontent, ⟨text, hmethod, hparams⟩ | ⟨hmethod, hparams⟩ | hmethod⟩
    · exact ⟨.open name text, ⟨request, hcontent, .open hmethod hparams⟩, rfl⟩
    · exact ⟨.close name, ⟨request, hcontent, .close hmethod hparams⟩, rfl⟩
    · exact ⟨.shutdown, ⟨request, hcontent, .shutdown hmethod⟩, trivial⟩

end InputLine

end RazenLint
