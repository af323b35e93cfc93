import Settlement.CommandLine.Run
import Settlement.Proofs.Rejections

/-!
# What becomes of a session file that is not read

A session file of which every part is checked is read or rejected, and the `quote` command reports a
rejection as an ordinary error. One use of a value is not checked: a discount finds its item by the
item's id, and an id that is a list or a record cannot serve as a key. The fault that this leads to
is none of the domain, and the command does not report it (`Session.readTab_outcome`).
-/

namespace Settlement

open CommandLine (Plan Ending)

variable {c : Currency} {octets : ByteArray} {document : Value} {f : Fault}

/-- The `quote` command ends with the fault of its session file. -/
theorem CommandLine.run_quote_of_error (hread : Json.read octets = .ok document)
    (h : Session.readTab c.code document = .error f) (level : ℕ) (path : String)
    (selections : List String) (withCheck : Bool) (fresh : String) :
    Plan.run ⟨c, level, .quote path selections withCheck⟩ (some octets) fresh = .ofFault f := by
  have hload : Session.load c.code path (some octets) = .error f := by
    rw [Session.load, bind_of_eq_ok hread, h]
  have hquote : quoteSession c path (some octets) selections = .error f := by
    rw [quoteSession, hload]
    rfl
  rw [Plan.run]
  change runQuote c path (some octets) selections withCheck fresh = _
  rw [runQuote, hquote]

/-- What concerns the rules of the domain is reported. -/
theorem Category.isReportable_of_isDomain {category : Category}
    (h : category.isDomain = true) : category.isReportable = true := by
  cases category <;> first | rfl | cases h

namespace Session

/-- **Session documents.** A document that is decoded from the octets of a file is read; or it is
rejected for breaking a rule of the domain, and the `quote` command prints the message of that fault
as an error, prints nothing else, and ends with the exit code one; or it stops at a discount whose
item is referred to by a list or a record, and this fault escapes from the command. The last happens
with every document that stops at such a key. -/
theorem readTab_outcome (c : Currency) (octets : ByteArray) (document : Value)
    (hread : Json.read octets = .ok document) :
    let quote (path : String) (selections : List String) (withCheck : Bool) (level : ℕ)
        (fresh : String) : Ending :=
      Plan.run ⟨c, level, .quote path selections withCheck⟩ (some octets) fresh
    ((∃ tab, readTab c.code document = .ok tab) ∨
      (∃ f, readTab c.code document = .error f ∧ f.category.isDomain = true ∧ f.reported = f ∧
        ∀ path selections withCheck level fresh, quote path selections withCheck level fresh =
          .finished 1 "" s!"Error: {f.message}\n") ∨
      ∃ kind, StopsAtKey c.code document kind ∧
        readTab c.code document = .error (.unusableKey kind) ∧
        ∀ path selections withCheck level fresh, quote path selections withCheck level fresh =
          .escaped (.unusableKey kind)) ∧
    ∀ kind, StopsAtKey c.code document kind →
      readTab c.code document = .error (.unusableKey kind) := by
  intro quote
  refine ⟨?_, fun kind => readTab_of_stopsAtKey⟩
  cases htab : readTab c.code document with
  | ok tab => exact .inl ⟨tab, rfl⟩
  | error f =>
    rcases readTab_error (Json.writable_of_read hread) htab with hreject | ⟨kind, hstops, rfl⟩
    · refine .inr (.inl ⟨f, rfl, hreject.isDomain, hreject.reported_eq, ?_⟩)
      intro path selections withCheck level fresh
      change Plan.run _ _ _ = _
      rw [CommandLine.run_quote_of_error hread htab, Ending.ofFault, hreject.reported_eq,
        if_pos (Category.isReportable_of_isDomain hreject.isDomain), Ending.failed]
    · refine .inr (.inr ⟨kind, hstops, rfl, ?_⟩)
      intro path selections withCheck level fresh
      exact CommandLine.run_quote_of_error hread htab level path selections withCheck fresh

/-- An item without an id is reported. -/
theorem readTab_outcome_missing_id :
    let octets := "\x7b\"items\": [\x7b\x7d]\x7d".toUTF8
    Plan.run ⟨⟨"EUR", by decide⟩, 30, .quote "session.json" ["tea"] false⟩ (some octets) "tab" =
      .finished 1 "" "Error: items[0]: 'id' must be a non-empty string\n" := by
  intro octets
  have hread : Json.read octets = .ok (.record [("items", .list [.record []])]) := rfl
  have htab : readTab "EUR" (.record [("items", .list [.record []])]) =
      .error (.fieldNotText "items[0]" "id") := rfl
  rcases (readTab_outcome ⟨"EUR", by decide⟩ octets _ hread).1 with ⟨tab, hok⟩ |
    ⟨f, hf, -, -, hrun⟩ | ⟨kind, -, hkey, -⟩
  · cases htab.symm.trans hok
  · cases htab.symm.trans hf
    exact hrun "session.json" ["tea"] false 30 "tab"
  · cases htab.symm.trans hkey

/-- A discount whose item is referred to by an empty list is none of the faults of the domain, and
the `quote` command does not report it. -/
theorem readTab_unusable_key :
    let octets := ("\x7b\"items\": [], \"discounts\": [\x7b\"percent\": \"10\", " ++
      "\"reason\": \"DISCOUNT\", \"item_id\": []\x7d]\x7d").toUTF8
    ∃ document f, Json.read octets = .ok document ∧ readTab "EUR" document = .error f ∧
      f.category.isDomain = false ∧
      Plan.run ⟨⟨"EUR", by decide⟩, 30, .quote "session.json" ["tea"] false⟩ (some octets) "tab" =
        .escaped f := by
  intro octets
  let fields : Fields :=
    [("percent", .text "10"), ("reason", .text "DISCOUNT"), ("item_id", .list [])]
  let document : Value := .record [("items", .list []), ("discounts", .list [.record fields])]
  have hread : Json.read octets = .ok document := rfl
  obtain ⟨d, hd, -⟩ := exists_of_toOption (r := readDiscount "EUR" "discounts[0]" fields)
    (f := fun _ => ()) (v := ()) (by decide +kernel)
  have hstops : StopsAtKey "EUR" document "list" :=
    ⟨_, [], [], [], [], .record fields, [], [], rfl, rfl, rfl, rfl, rfl, rfl, rfl,
      ⟨fields, d, rfl, hd, rfl, rfl⟩⟩
  have htab := readTab_of_stopsAtKey hstops
  exact ⟨document, _, hread, htab, rfl,
    CommandLine.run_quote_of_error (c := ⟨"EUR", by decide⟩) hread htab ..⟩

end Session

end Settlement
