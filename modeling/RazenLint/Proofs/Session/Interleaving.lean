import RazenLint.Proofs.Session.History

/-!
# Two clients of one session

A line is answered from the text of the one document that it names
(`InputLine.answerOn_congr`), and the text of a document depends on the lines that name
it (`textsAfter_linesOf`). So a client whose documents nobody else names is answered as
if it were alone, however its lines are mixed with others (`answered_eq`).
`run_interleaved` says this for two clients.
-/

namespace RazenLint

/-- The document that a line is about, if it gives a command about one. -/
def InputLine.document? (line : InputLine) : Option String :=
  line.command?.bind Command.document?

/-! ## What an answer depends on -/

namespace Command

variable {command : Command} {texts texts' : OpenTexts}

theorem resultOn_congr (h : ∀ name, command.document? = some name → texts name = texts' name) :
    command.resultOn texts = command.resultOn texts' := by
  have hfind : ∀ name, command.document? = some name → texts.find name = texts'.find name := by
    intro name hname
    rw [OpenTexts.find, OpenTexts.find, h name hname]
  cases command with
  | «open» name text => rfl
  | tokens name => rw [resultOn, resultOn, hfind name rfl]
  | codeActions name diagnostics => rw [resultOn, resultOn, hfind name rfl]
  | completion name position => rw [resultOn, resultOn, hfind name rfl]
  | close name => rw [resultOn, resultOn, h name rfl]
  | shutdown => rfl

/-- Only the end of the session decides about documents that it does not name. -/
theorem document?_of_settles {name : String} (h : command.Settles name)
    (hcommand : command ≠ .shutdown) : command.document? = some name := by
  cases command with
  | «open» other text => exact congrArg some h
  | close other => exact congrArg some h
  | shutdown => exact absurd rfl hcommand
  | tokens other => exact h.elim
  | codeActions other diagnostics => exact h.elim
  | completion other position => exact h.elim

end Command

namespace InputLine

variable {line : InputLine} {texts texts' : OpenTexts} {name : String}

theorem answerOn_congr (h : ∀ name, line.document? = some name → texts name = texts' name) :
    line.answerOn texts = line.answerOn texts' := by
  rw [answerOn, answerOn]
  cases hcontent : line.content with
  | blank => rfl
  | problem reason => rfl
  | request request =>
    have hresult : (Command.ofRequest request).bind (Command.resultOn texts) =
        (Command.ofRequest request).bind (Command.resultOn texts') := by
      cases hcommand : Command.ofRequest request with
      | error reason => rfl
      | ok command =>
        have hline : line.command? = some command := by
          rw [command?, hcontent, LineContent.command?, hcommand]
          rfl
        exact Command.resultOn_congr fun name hname =>
          h name (by rw [document?, hline]; exact hname)
    dsimp only
    rw [hresult]

theorem textsAfter_of_ne_document (hended : line.command? ≠ some .shutdown)
    (h : line.document? ≠ some name) : line.textsAfter texts name = texts name := by
  rw [textsAfter, LineContent.textsAfter, ← command?]
  cases hcommand : line.command? with
  | none => rfl
  | some command =>
    refine Command.textsAfter_of_not_settles fun hsettles => h ?_
    have hne : command ≠ .shutdown := fun heq => hended (heq ▸ hcommand)
    rw [document?, hcommand]
    exact Command.document?_of_settles hsettles hne

theorem textsAfter_congr (h : texts name = texts' name) :
    line.textsAfter texts name = line.textsAfter texts' name := by
  rw [textsAfter, textsAfter, LineContent.textsAfter, LineContent.textsAfter]
  cases line.content.command? with
  | none => exact h
  | some command => cases command <;> simp only [Command.textsAfter, h]

end InputLine

/-- A document that no line names is not open. -/
theorem textsAfter_eq_none {lines : List InputLine} {name : String}
    (h : ∀ line ∈ lines, line.document? ≠ some name) : textsAfter lines name = none := by
  rw [Option.eq_none_iff_forall_ne_some]
  intro text htext
  obtain ⟨before, line, after, rfl, hopening, -⟩ := textsAfter_eq_some_iff.1 htext
  exact h line (by simp) (by rw [InputLine.document?, hopening]; rfl)

/-! ## One client among others -/

section

variable {Client : Type} [DecidableEq Client] {mixed : List (Client × InputLine)}

/-- The lines of one client. -/
def linesOf (client : Client) (mixed : List (Client × InputLine)) : List InputLine :=
  (mixed.filter (·.1 = client)).map Prod.snd

/-- The lines of one client with the answers to them. -/
def answered (client : Client) (mixed : List (Client × InputLine))
    (answers : List (Option Response)) : List (InputLine × Option Response) :=
  ((mixed.zip answers).filter (·.1.1 = client)).map fun p => (p.1.2, p.2)

/-- No two clients name one document. -/
def Apart (mixed : List (Client × InputLine)) : Prop :=
  ∀ p ∈ mixed, ∀ q ∈ mixed, p.1 ≠ q.1 → ∀ name ∈ p.2.document?, name ∉ q.2.document?

instance : Decidable (Apart mixed) :=
  inferInstanceAs (Decidable (∀ p ∈ mixed, ∀ q ∈ mixed, p.1 ≠ q.1 →
    ∀ name ∈ p.2.document?, name ∉ q.2.document?))

omit [DecidableEq Client] in
theorem Apart.of_concat {p : Client × InputLine} (h : Apart (mixed ++ [p])) : Apart mixed :=
  fun q hq r hr => h q (List.mem_append_left _ hq) r (List.mem_append_left _ hr)

theorem linesOf_concat (client : Client) (mixed : List (Client × InputLine))
    (p : Client × InputLine) : linesOf client (mixed ++ [p]) =
      linesOf client mixed ++ if p.1 = client then [p.2] else [] := by
  by_cases h : p.1 = client <;> simp [linesOf, h]

theorem mem_linesOf {client : Client} {line : InputLine} :
    line ∈ linesOf client mixed ↔ (client, line) ∈ mixed := by
  simp [linesOf]

/-- The text of a document that no other client names comes from the lines of this
client. -/
theorem textsAfter_linesOf (hrunning : ∀ p ∈ mixed, p.2.command? ≠ some .shutdown)
    {client : Client} {name : String}
    (hname : ∀ p ∈ mixed, p.1 ≠ client → p.2.document? ≠ some name) :
    textsAfter (mixed.map Prod.snd) name = textsAfter (linesOf client mixed) name := by
  induction mixed using List.reverseRecOn with
  | nil => rfl
  | append_singleton mixed p ih =>
    have hp : p ∈ mixed ++ [p] := by simp
    have ih := ih (fun q hq => hrunning q (List.mem_append_left _ hq))
      fun q hq => hname q (List.mem_append_left _ hq)
    rw [List.map_append, List.map_singleton, textsAfter_concat, linesOf_concat]
    split
    · rw [textsAfter_concat]
      exact InputLine.textsAfter_congr ih
    · rename_i hother
      rw [List.append_nil,
        InputLine.textsAfter_of_ne_document (hrunning p hp) (hname p hp hother), ih]

/-- A client whose documents nobody else names is answered as if it were alone. -/
theorem answered_eq (hrunning : ∀ p ∈ mixed, p.2.command? ≠ some .shutdown)
    (hapart : Apart mixed) (client : Client) :
    answered client mixed (answersTo (mixed.map Prod.snd)) =
      (linesOf client mixed).zip (answersTo (linesOf client mixed)) := by
  induction mixed using List.reverseRecOn with
  | nil => rfl
  | append_singleton mixed p ih =>
    have hleft : ∀ q ∈ mixed, q ∈ mixed ++ [p] := fun q hq => List.mem_append_left _ hq
    have hrunning' : ∀ q ∈ mixed, q.2.command? ≠ some .shutdown :=
      fun q hq => hrunning q (hleft q hq)
    have ih := ih hrunning' hapart.of_concat
    have hlength (lines : List InputLine) : lines.length = (answersTo lines).length := by
      simp [answersTo]
    have hmixed : mixed.length = (answersTo (mixed.map Prod.snd)).length := by
      rw [← hlength, List.length_map]
    rw [answered] at ih ⊢
    rw [List.map_append, List.map_singleton, answersTo_concat, List.zip_append hmixed,
      List.filter_append, List.map_append, ih, linesOf_concat]
    by_cases hclient : p.1 = client
    · have hanswer : p.2.answerOn (textsAfter (mixed.map Prod.snd)) =
          p.2.answerOn (textsAfter (linesOf client mixed)) :=
        InputLine.answerOn_congr fun name hname => textsAfter_linesOf hrunning' fun q hq hother =>
          hapart p (by simp) q (hleft q hq) (fun heq => hother (heq ▸ hclient)) name hname
      rw [if_pos hclient, answersTo_concat, List.zip_append (hlength _), hanswer]
      simp [hclient]
    · simp [hclient]

end

/-! ## Two clients -/

/-- The names of the open documents. -/
def Session.openNames (session : Session) : Finset String :=
  session.documents.keys.toFinset

namespace Session.Shows

variable {session : Session} {texts : OpenTexts}

theorem mem_openNames_iff (h : session.Shows texts) {name : String} :
    name ∈ session.openNames ↔ (texts name).isSome := by
  rw [Session.openNames, List.mem_toFinset, Table.mem_keys_iff, h.documents, Option.isSome_map]

/-- Every open document counts once. -/
theorem card_openNames (h : session.Shows texts) : session.openNames.card = session.openCount :=
  h.sorted.card_keys

end Session.Shows

/-- The lines of two clients that do not end the session and name different documents are
mixed in any way. Every line gets the answer that it gets when the lines of its client
are sent alone, and in the end the open documents are those of the two clients. -/
theorem run_interleaved (mixed : List (Bool × InputLine))
    (hrunning : ∀ p ∈ mixed, p.2.command? ≠ some .shutdown) (hapart : Apart mixed) :
    let both := Session.fresh.run (mixed.map Prod.snd)
    let alone (client : Bool) := Session.fresh.run (linesOf client mixed)
    (∀ client, answered client mixed both.2 = (linesOf client mixed).zip (alone client).2) ∧
      both.1.openNames = (alone true).1.openNames ∪ (alone false).1.openNames ∧
      both.1.openCount = (alone true).1.openCount + (alone false).1.openCount := by
  intro both alone
  obtain ⟨hboth, hshows, -⟩ := run_fresh (mixed.map Prod.snd)
  have halone (client : Bool) := run_fresh (linesOf client mixed)
  -- a document that one client names is as this client left it, and not open for the other
  have htexts (name : String) : ∃ client,
      textsAfter (mixed.map Prod.snd) name = textsAfter (linesOf client mixed) name ∧
        textsAfter (linesOf (!client) mixed) name = none := by
    by_cases hnamed : ∃ p ∈ mixed, p.2.document? = some name
    · obtain ⟨p, hp, hname⟩ := hnamed
      refine ⟨p.1, textsAfter_linesOf hrunning fun q hq hother =>
        hapart p hp q hq (Ne.symm hother) name hname, textsAfter_eq_none fun line hline => ?_⟩
      exact hapart p hp _ (mem_linesOf.1 hline) (by simp) name hname
    · have hnone : ∀ p ∈ mixed, p.2.document? ≠ some name := fun p hp h => hnamed ⟨p, hp, h⟩
      exact ⟨true, textsAfter_linesOf hrunning fun p hp _ => hnone p hp,
        textsAfter_eq_none fun line hline => hnone _ (mem_linesOf.1 hline)⟩
  have hunion : both.1.openNames = (alone true).1.openNames ∪ (alone false).1.openNames := by
    ext name
    rw [Finset.mem_union, hshows.mem_openNames_iff, (halone true).2.1.mem_openNames_iff,
      (halone false).2.1.mem_openNames_iff]
    obtain ⟨client, hsame, hnone⟩ := htexts name
    cases client <;> rw [hsame] <;> simp_all
  refine ⟨fun client => ?_, hunion, ?_⟩
  · rw [hboth, (halone client).1]
    exact answered_eq hrunning hapart client
  · have hdisjoint : Disjoint (alone true).1.openNames (alone false).1.openNames := by
      rw [Finset.disjoint_left]
      intro name hfirst hsecond
      rw [(halone true).2.1.mem_openNames_iff] at hfirst
      rw [(halone false).2.1.mem_openNames_iff] at hsecond
      obtain ⟨client, -, hnone⟩ := htexts name
      cases client <;> simp_all
    rw [← hshows.card_openNames, hunion, Finset.card_union_of_disjoint hdisjoint,
      (halone true).2.1.card_openNames, (halone false).2.1.card_openNames]

/-- Two clients, of which the first one also sends a line that is not UTF-8, and the second
one asks for something unknown and closes its document. -/
def twoClients : List (Bool × InputLine) :=
  [(true, .text "[1, \"open\", [\"a\", \"let x = 1\"]]".toList),
    (false, .text "[2, \"open\", [\"b\", \"use strlib\"]]".toList),
    (true, .bytes [0xff, 0x0a]),
    (false, .text "[3, \"bogus\"]".toList),
    (true, .text "[4, \"tokens\", [\"a\"]]".toList),
    (false, .text "[5, \"close\", [\"b\"]]".toList)]

/-- The second client is answered as if it were alone, and the document of the first one stays
open. -/
theorem run_interleaved_twoClients :
    (∀ p ∈ twoClients, p.2.command? ≠ some .shutdown) ∧ Apart twoClients ∧
      answered true twoClients (Session.fresh.run (twoClients.map Prod.snd)).2 =
        (linesOf true twoClients).zip (Session.fresh.run (linesOf true twoClients)).2 ∧
      (Session.fresh.run (twoClients.map Prod.snd)).1.openNames =
        (Session.fresh.run (linesOf true twoClients)).1.openNames ∪
          (Session.fresh.run (linesOf false twoClients)).1.openNames ∧
      (answered false twoClients (Session.fresh.run (twoClients.map Prod.snd)).2).map
          (fun p => p.2.map Response.line) =
        [some ("\x7b\"id\":2,\"result\":\x7b\"diagnostics\":[],\"document\":\"b\",\"tokens\":[" ++
            "\x7b\"length\":6,\"line\":0,\"startCol\":4,\"tokenModifiers\":3," ++
            "\"tokenType\":\"library\"\x7d]\x7d\x7d"),
          some "\x7b\"id\":3,\"error\":\x7b\"message\":\"unknown method 'bogus'\"\x7d\x7d",
          some "\x7b\"id\":5,\"result\":true\x7d"] ∧
      (Session.fresh.run (twoClients.map Prod.snd)).1.openNames = {"a"} := by
  have hrunning : ∀ p ∈ twoClients, p.2.command? ≠ some .shutdown := by decide +kernel
  have hapart : Apart twoClients := by decide +kernel
  obtain ⟨hanswers, hnames, -⟩ := run_interleaved twoClients hrunning hapart
  exact ⟨hrunning, hapart, hanswers true, hnames, by decide +kernel, by decide +kernel⟩

end RazenLint
