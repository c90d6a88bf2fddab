import ProtocolRobustness.Resubmission.Receipts

/-!
# Every admission owes one receipt, and none can be issued

* `admit_write`, `dispose_write`, `mark_write`   what a call can write;
* `Owed`                  the cell with the admissions that made it: one obligation each;
* `prepare_pending`       the worker's checks before the join pass on what the store keeps;
* `receiptChainJoin_eq_none`   the join, which a stored ordering meets only where the candidate
                          states neither a sequence nor a parent;
* `receipts_owed`         what holds after every interleaving.
-/

set_option linter.unusedSectionVars false

namespace PRF.Resubmission
open CompareAndSet Callers

section
variable {ι : Type*} [DecidableEq ι] {O : OrderingRoots ι} {K : ReceiptCrypto ι}
  {cfg : ReceiptConfig ι} {J J' : ReceiptJournal ι}

/-! ## what a call writes -/

theorem transact_write {base : Config ι} {call : Call ι} {journal journal' : Journal ι}
    {a : Answer ι} :
    transact O base call journal = .write journal' a →
      ∃ c version, applyAction O.toRoots (journal.state base) call.command = .committed c
        ∧ base.obligationValid (orderingOf O (journal.state base) c) call.command = true
        ∧ journal' = journal.commit c.state version (orderingOf O (journal.state base) c)
          (buildRecord (journal.state base) call.command (orderingOf O (journal.state base) c))
        ∧ a = .committed c (orderingOf O (journal.state base) c) := by
  intro h
  unfold transact at h
  dsimp only at h
  split at h
  · cases h
  · split at h
    · next c hc =>
      unfold publish at h
      dsimp only at h
      split at h
      · split at h
        · next hvalid =>
          obtain ⟨rfl, rfl⟩ := Outcome.write.inj h
          exact ⟨c, _, hc, hvalid, rfl, rfl⟩
        · cases h
      · cases h
    · cases h

/-! ## candidates that are accepted -/

/-- what the checks of `admit!` say of a candidate -/
structure Accepted (O : OrderingRoots ι) (K : ReceiptCrypto ι) (receiptPublicHex : Option ι)
    (candidate : AttemptReceipt ι) : Prop where
  authority : receiptPublicHex ≠ none
  shape : validReceiptShape O candidate = true
  signature : verifyReceiptSignature K candidate receiptPublicHex = none

variable {publicHex : Option ι} {candidate : AttemptReceipt ι} {ordering : Ordering ι}

theorem accepted_of_refusal (h : admitRefusal O K publicHex candidate = none) :
    Accepted O K publicHex candidate := by
  unfold admitRefusal at h
  split_ifs at h with hkey hshape hsignature
  exact ⟨hkey, by simpa using hshape, not_not.mp hsignature⟩

theorem Accepted.schemaOf (h : Accepted O K publicHex candidate) : candidate.schemaOf = .v1 := by
  have hshape := h.shape
  simp only [validReceiptShape, Bool.and_eq_true, decide_eq_true_eq] at hshape
  rw [AttemptReceipt.schemaOf, hshape.1.1]
  rfl

theorem Accepted.keyId (h : Accepted O K publicHex candidate) : candidate.keyId.isSome = true := by
  have hshape := h.shape
  simp only [validReceiptShape, commonShape, Bool.and_eq_true, Option.any_eq_true] at hshape
  obtain ⟨-, -, v, hv, -, hkey⟩ := hshape
  rw [AttemptReceipt.keyId, hv]
  exact hkey

/-- its validator is kept in the receipt of a commit -/
theorem Accepted.validator (h : Accepted O K publicHex candidate) (ordering : Ordering ι) :
    (receiptFromCommit candidate ordering).validator.isSome = true := by
  have hkeyId := h.keyId
  unfold AttemptReceipt.keyId at hkeyId
  cases hv : candidate.validator with
  | none => simp [hv] at hkeyId
  | some v => simp [receiptFromCommit, AttemptReceipt.unsigned, hv]

theorem Accepted.obligationOf (h : Accepted O K publicHex candidate)
    (haction : ordering.action = some .admitChild) :
    obligationOf K publicHex candidate ordering = some (build K ordering candidate publicHex) := by
  rw [PRF.Resubmission.obligationOf, if_pos]
  simp [receiptRequired, haction, h.schemaOf, h.keyId, Option.isSome_iff_ne_none.mpr h.authority]

theorem Accepted.build_valid (h : Accepted O K publicHex candidate)
    (hordering : ∃ hash, ordering.hash = some hash ∧ O.validSha256Ref hash = true) :
    (build K ordering candidate publicHex).valid O K = true := by
  obtain ⟨hash, hhash, href⟩ := hordering
  simp [Obligation.valid, build, obligationBody, h.schemaOf, h.keyId, hhash, href,
    Option.isSome_iff_ne_none.mpr h.authority]

/-- the worker finds an accepted candidate authentic, under the key that accepted it -/
theorem Accepted.authentic (h : Accepted O K publicHex candidate) :
    authenticateCandidate O K candidate candidate.id publicHex = none := by
  have hsignature := h.signature
  have hid : candidate.id = some (receiptHash K false candidate) := by
    unfold verifyReceiptSignature at hsignature
    split at hsignature
    · cases hsignature
    · split_ifs at hsignature with _ hid
      simpa [h.schemaOf] using hid
  unfold authenticateCandidate
  simp [h.schemaOf, h.shape, hid, h.signature]

/-! ## what the calls write -/

/-- an admission that is committed, with its request -/
structure Admission (ι : Type*) where
  request : AdmitRequest ι
  candidate : AttemptReceipt ι
  ordering : Ordering ι

def Admission.owes (K : ReceiptCrypto ι) (cfg : ReceiptConfig ι) (c : Admission ι) :
    Obligation ι :=
  build K c.ordering c.candidate cfg.receiptPublicHex

/-- **An admission writes when its candidate is accepted and its command commits, and then one
pending obligation.** -/
theorem admit_write {q : AdmitRequest ι} {a : ReceiptAnswer ι}
    (h : admitReceipt O K cfg q J = .write J' a) :
    ∃ candidate c version, q.candidateAttemptReceipt = some candidate
      ∧ Accepted O K cfg.receiptPublicHex candidate
      ∧ applyAction O.toRoots (J.journal.state cfg.toConfig) (admitCommand q candidate)
        = .committed c
      ∧ a = .transaction (.committed c (orderingOf O (J.journal.state cfg.toConfig) c))
      ∧ J' = J.commit
        (J.journal.commit c.state version (orderingOf O (J.journal.state cfg.toConfig) c)
          (buildRecord (J.journal.state cfg.toConfig) (admitCommand q candidate)
            (orderingOf O (J.journal.state cfg.toConfig) c)))
        (orderingOf O (J.journal.state cfg.toConfig) c) candidate
        (obligationOf K cfg.receiptPublicHex candidate
          (orderingOf O (J.journal.state cfg.toConfig) c)) := by
  unfold admitReceipt at h
  split at h
  · cases h
  · next candidate hcandidate =>
    split at h
    · cases h
    · next hrefusal =>
      unfold admitTransaction at h
      split at h
      · next journal c ordering htransact =>
        obtain ⟨c', version, hc, -, rfl, hanswer⟩ := transact_write htransact
        obtain ⟨rfl, rfl⟩ := Answer.committed.inj hanswer
        obtain ⟨rfl, rfl⟩ := Outcome.write.inj h
        exact ⟨candidate, c, version, hcandidate, accepted_of_refusal hrefusal, hc, rfl, rfl⟩
      · next journal b hno htransact =>
        obtain ⟨c', version, -, -, -, hanswer⟩ := transact_write htransact
        exact absurd hanswer (hno c' _)
      · cases h

theorem dispose_write {input : DispositionInput ι} {a : ReceiptAnswer ι}
    (h : dispose O cfg input J = .write J' a) :
    ∃ c version, applyAction O.toRoots (J.journal.state cfg.toConfig) (.applyDisposition input)
        = .committed c
      ∧ a = .transaction (.committed c (orderingOf O (J.journal.state cfg.toConfig) c))
      ∧ J' = ⟨J.journal.commit c.state version (orderingOf O (J.journal.state cfg.toConfig) c)
          (buildRecord (J.journal.state cfg.toConfig) (.applyDisposition input)
            (orderingOf O (J.journal.state cfg.toConfig) c)), J.candidates, J.obligations⟩ := by
  unfold dispose at h
  split at h
  · next journal b htransact =>
    obtain ⟨c, version, hc, -, rfl, rfl⟩ := transact_write htransact
    obtain ⟨rfl, rfl⟩ := Outcome.write.inj h
    exact ⟨c, version, hc, rfl, rfl⟩
  · cases h

theorem mark_write {id : ι} {signed : AttemptReceipt ι} {a : ReceiptAnswer ι}
    (h : markReceiptIssued id signed J = .write J' a) :
    ∃ o, Table.find J.obligations id = some ⟨o, .pending⟩
      ∧ a = .issued ⟨o, .issued signed.id signed⟩
      ∧ J' = { J with obligations := Table.put J.obligations id ⟨o, .issued signed.id signed⟩ } := by
  unfold markReceiptIssued at h
  split at h
  · cases h
  · next o hfind =>
    obtain ⟨rfl, rfl⟩ := Outcome.write.inj h
    exact ⟨o, hfind, rfl, rfl⟩
  · split at h <;> cases h

/-- the admission that an answer tells of -/
def admissionOf : ReceiptCall ι × ReceiptAnswer ι → Option (Admission ι)
  | (.admitReceipt q, .transaction (.committed _ ordering)) =>
    q.candidateAttemptReceipt.map fun candidate => ⟨q, candidate, ordering⟩
  | _ => none

/-- the admissions that some writes committed -/
def admissions (writes : List (ReceiptCall ι × ReceiptAnswer ι)) : List (Admission ι) :=
  writes.filterMap admissionOf

/-! ## the cell with its admissions -/

structure Stored (O : OrderingRoots ι) (K : ReceiptCrypto ι) (cfg : ReceiptConfig ι)
    (J : ReceiptJournal ι) (orderings : List (Ordering ι)) (c : Admission ι) : Prop where
  request : c.request.candidateAttemptReceipt = some c.candidate
  accepted : Accepted O K cfg.receiptPublicHex c.candidate
  sequence : c.request.sequence ≠ none
  ordering : c.ordering ∈ orderings
  action : c.ordering.action = some .admitChild
  record : ∃ hash record, c.ordering.hash = some hash
    ∧ J.journal.committedTransactions hash = some record ∧ record.ordering = c.ordering
    ∧ record.command = admitCommand c.request c.candidate ∧ J.candidates hash = some c.candidate

/-- one obligation for each admission, in the order of the admissions -/
structure Owed (O : OrderingRoots ι) (K : ReceiptCrypto ι) (cfg : ReceiptConfig ι)
    (J : ReceiptJournal ι) (orderings : List (Ordering ι)) (commits : List (Admission ι)) :
    Prop where
  history : History O cfg.toConfig J.journal orderings
  obligations : J.obligations.map (fun e => (e.1, e.2.obligation))
    = commits.map fun c => ((c.owes K cfg).id, c.owes K cfg)
  distinct : (J.obligations.map Prod.fst).Nodup
  stored : ∀ c ∈ commits, Stored O K cfg J orderings c

theorem owed_empty : Owed O K cfg ReceiptJournal.empty [] [] where
  history := history_empty
  obligations := rfl
  distinct := List.nodup_nil
  stored := fun c hc => by cases hc

variable {orderings : List (Ordering ι)} {commits : List (Admission ι)}

theorem History.fresh_hash {base : Config ι} {journal : Journal ι}
    (h : History O base journal (orderings ++ [ordering])) (hO : Canonical O) :
    ∀ o ∈ orderings, o.hash ≠ ordering.hash := by
  intro o ho heq
  obtain ⟨i, hi⟩ := List.mem_iff_getElem?.mp ho
  have hlt : i < orderings.length := (List.getElem?_eq_some_iff.mp hi).1
  have hpos := h.positions i o (by rw [List.getElem?_append_left hlt]; exact hi)
  have hlast := h.positions orderings.length ordering (by simp)
  have hmem : o ∈ orderings ++ [ordering] := List.mem_append_left _ ho
  have hmem' : ordering ∈ orderings ++ [ordering] := List.mem_append_right _ (by simp)
  rw [(h.valid o hmem).2.1, (h.valid ordering hmem').2.1] at heq
  have hunsigned := hO.injective o ordering (Option.some.inj heq)
  have hindex : o.unsigned.commitIndex = ordering.unsigned.commitIndex := by rw [hunsigned]
  change o.commitIndex = ordering.commitIndex at hindex
  rw [hpos, hlast] at hindex
  have hsame := Option.some.inj hindex
  omega

/-- a commit keeps what is stored for the admissions before it -/
theorem Stored.kept {c : Admission ι} (h : Stored O K cfg J orderings c)
    (hfresh : ∀ o ∈ orderings, o.hash ≠ ordering.hash)
    (hrecords : ∀ hash, some hash ≠ ordering.hash →
      J'.journal.committedTransactions hash = J.journal.committedTransactions hash
        ∧ J'.candidates hash = J.candidates hash) :
    Stored O K cfg J' (orderings ++ [ordering]) c := by
  refine ⟨h.request, h.accepted, h.sequence, List.mem_append_left _ h.ordering, h.action, ?_⟩
  obtain ⟨hash, record, hhash, hrecord, hordering, hcommand, hcandidate⟩ := h.record
  have hne : some hash ≠ ordering.hash := hhash ▸ hfresh _ h.ordering
  obtain ⟨hrecords', hcandidates'⟩ := hrecords hash hne
  exact ⟨hash, record, hhash, hrecords'.trans hrecord, hordering, hcommand,
    hcandidates'.trans hcandidate⟩

theorem committedTransactions_other {journal : Journal ι} {state : ChainState ι} {version : ℤ}
    {record : Record ι} {hash : ι} (hne : some hash ≠ ordering.hash) :
    (journal.commit state version ordering record).committedTransactions hash
      = journal.committedTransactions hash := by
  unfold Journal.commit
  cases hordering : ordering.hash with
  | none => rfl
  | some h =>
    rw [hordering] at hne
    exact Function.update_of_ne (fun heq => hne (congrArg some heq)) _ _

theorem candidates_other {journal : Journal ι} {obligation : Option (Obligation ι)} {hash : ι}
    (hne : some hash ≠ ordering.hash) :
    (J.commit journal ordering candidate obligation).candidates hash = J.candidates hash := by
  unfold ReceiptJournal.commit
  cases hordering : ordering.hash with
  | none => rfl
  | some h =>
    rw [hordering] at hne
    exact Function.update_of_ne (fun heq => hne (congrArg some heq)) _ _

theorem committed_admission {state : ChainState ι} {q : AdmitRequest ι} {c : Commit ι}
    (h : applyAction O.toRoots state (admitCommand q candidate) = .committed c) :
    (orderingOf O state c).action = some .admitChild ∧ q.sequence ≠ none := by
  rcases applyAction_committed.mp h with ⟨input, hinput, -, hadmitted, hcommit⟩ |
    ⟨input, _, _, hinput, -⟩
  · obtain rfl := Command.admitChild.inj hinput
    constructor
    · cases hcommit
      rw [orderingOf_action]
    · rcases hadmitted with hfirst | ⟨parentEntry, hunder⟩
      · have hsequence : q.sequence = some 1 := hfirst.sequence
        simp [hsequence]
      · have hsequence : q.sequence = some _ := hunder.sequence
        simp [hsequence]
  · cases hinput

/-- **An admission adds one obligation, under a new id.** -/
theorem Owed.admitReceipt (h : Owed O K cfg J orderings commits) (hO : Canonical O)
    (hroot : Function.Injective K.obligationRoot) {q : AdmitRequest ι} {a : ReceiptAnswer ι}
    (hwrite : admitReceipt O K cfg q J = .write J' a) :
    ∃ c : Admission ι, admissionOf (.admitReceipt q, a) = some c
      ∧ Owed O K cfg J' (orderings ++ [c.ordering]) (commits ++ [c])
      ∧ J'.obligations = J.obligations ++ [((c.owes K cfg).id, ⟨c.owes K cfg, .pending⟩)] := by
  obtain ⟨candidate, c, version, hcandidate, haccepted, hc, rfl, rfl⟩ := admit_write hwrite
  obtain ⟨haction, hsequence⟩ := committed_admission hc
  have hhistory := h.history.commit hO hc version
  set ordering := orderingOf O (J.journal.state cfg.toConfig) c with hordering
  have hhash : ordering.hash = some (orderingHash O ordering) := orderingOf_hash
  have hfresh := hhistory.fresh_hash hO
  rw [haccepted.obligationOf haction]
  -- the obligations before are of other orderings
  have hnew : (build K ordering candidate cfg.receiptPublicHex).id ∉ J.obligations.map Prod.fst := by
    intro hmem
    have hkeys : J.obligations.map Prod.fst = commits.map fun c => (c.owes K cfg).id := by
      have hfst := congrArg (List.map Prod.fst) h.obligations
      simpa [Function.comp_def] using hfst
    rw [hkeys] at hmem
    obtain ⟨c', hc', hid⟩ := List.mem_map.mp hmem
    have hbody := hroot hid
    have hsame : c'.ordering.hash = ordering.hash :=
      congrArg ObligationBody.transactionOrderingHash hbody
    exact hfresh _ (h.stored c' hc').ordering hsame
  have happend : Table.put J.obligations (build K ordering candidate cfg.receiptPublicHex).id
      ⟨build K ordering candidate cfg.receiptPublicHex, .pending⟩
      = J.obligations ++ [((build K ordering candidate cfg.receiptPublicHex).id,
          ⟨build K ordering candidate cfg.receiptPublicHex, .pending⟩)] :=
    Table.put_fresh hnew _
  refine ⟨⟨q, candidate, ordering⟩, by simp [admissionOf, hcandidate], ⟨hhistory, ?_, ?_, ?_⟩, ?_⟩
  · show (Table.put _ _ _).map _ = _
    rw [happend, List.map_append, List.map_append, h.obligations]
    rfl
  · exact Table.nodup_put h.distinct _ _
  · intro c' hc'
    rcases List.mem_append.mp hc' with hc' | hc'
    · refine (h.stored c' hc').kept hfresh fun hash hne => ⟨?_, candidates_other hne⟩
      exact committedTransactions_other hne
    · obtain rfl := List.mem_singleton.mp hc'
      refine ⟨hcandidate, haccepted, hsequence, List.mem_append_right _ (by simp), haction,
        orderingHash O ordering,
        buildRecord (J.journal.state cfg.toConfig) (admitCommand q candidate) ordering, hhash, ?_,
        rfl, rfl, ?_⟩
      · show (J.journal.commit _ _ ordering _).committedTransactions _ = _
        unfold Journal.commit
        rw [hhash]
        exact Function.update_self ..
      · unfold ReceiptJournal.commit
        rw [hhash]
        exact Function.update_self ..
  · exact happend

/-- **An accepted candidate whose command commits is written**: neither its record nor its
obligation is ever invalid. -/
theorem Owed.admit_commits (h : Owed O K cfg J orderings commits) (hO : Canonical O)
    {q : AdmitRequest ι} {c : Commit ι} (hcandidate : q.candidateAttemptReceipt = some candidate)
    (hrefusal : admitRefusal O K cfg.receiptPublicHex candidate = none)
    (hc : applyAction O.toRoots (J.journal.state cfg.toConfig) (admitCommand q candidate)
      = .committed c) :
    ∃ J', PRF.Resubmission.admitReceipt O K cfg q J
      = .write J' (.transaction (.committed c (orderingOf O (J.journal.state cfg.toConfig) c))) := by
  have haccepted := accepted_of_refusal hrefusal
  obtain ⟨haction, -⟩ := committed_admission hc
  have hvalid := h.history.next_valid hO hc
  have hreplay := validateRecord_built hc hvalid
  have hobligation : (cfg.serving O K candidate).obligationValid
      (orderingOf O (J.journal.state cfg.toConfig) c) (admitCommand q candidate) = true := by
    show ((PRF.Resubmission.obligationOf K cfg.receiptPublicHex candidate _).all _) = true
    rw [haccepted.obligationOf haction]
    exact haccepted.build_valid ⟨_, orderingOf_hash, hO.orderingRef _ _⟩
  have hstate : J.journal.state (cfg.serving O K candidate) = J.journal.state cfg.toConfig := rfl
  have htransact : ∃ journal, transact O (cfg.serving O K candidate)
      ⟨admitCommand q candidate, none⟩ J.journal
        = .write journal (.committed c (orderingOf O (J.journal.state cfg.toConfig) c)) := by
    have hc' : applyAction O.toRoots (J.journal.current (cfg.serving O K candidate)).1
        (admitCommand q candidate) = .committed c := hc
    have hreplay' : validateRecord O
        (buildRecord (J.journal.current (cfg.serving O K candidate)).1 (admitCommand q candidate)
          (orderingOf O (J.journal.current (cfg.serving O K candidate)).1 c)) = [] := hreplay
    have hobligation' : (cfg.serving O K candidate).obligationValid
        (orderingOf O (J.journal.current (cfg.serving O K candidate)).1 c)
        (admitCommand q candidate) = true := hobligation
    unfold transact publish
    simp only [Option.any_none, Bool.false_eq_true, if_false, hc', hreplay', hobligation', if_true]
    exact ⟨_, rfl⟩
  obtain ⟨journal, htransact⟩ := htransact
  unfold PRF.Resubmission.admitReceipt admitTransaction
  simp only [hcandidate, hrefusal, htransact]
  exact ⟨_, rfl⟩

/-- a disposition adds no obligation -/
theorem Owed.dispose (h : Owed O K cfg J orderings commits) (hO : Canonical O)
    {input : DispositionInput ι} {a : ReceiptAnswer ι}
    (hwrite : dispose O cfg input J = .write J' a) :
    ∃ ordering, Owed O K cfg J' (orderings ++ [ordering]) commits
      ∧ J'.obligations = J.obligations := by
  obtain ⟨c, version, hc, rfl, rfl⟩ := dispose_write hwrite
  have hhistory := h.history.commit hO hc version
  refine ⟨_, ⟨hhistory, h.obligations, h.distinct, fun c' hc' => ?_⟩, rfl⟩
  refine (h.stored c' hc').kept (hhistory.fresh_hash hO) fun hash hne => ⟨?_, rfl⟩
  exact committedTransactions_other hne

/-- a receipt that is issued changes the processing of one obligation -/
theorem Owed.mark (h : Owed O K cfg J orderings commits) {id : ι} {signed : AttemptReceipt ι}
    {a : ReceiptAnswer ι} (hwrite : markReceiptIssued id signed J = .write J' a) :
    Owed O K cfg J' orderings commits := by
  obtain ⟨o, hfind, -, rfl⟩ := mark_write hwrite
  have hmem : id ∈ J.obligations.map Prod.fst := List.mem_map_of_mem (Table.mem_of_find hfind)
  have hput : Table.put J.obligations id ⟨o, .issued signed.id signed⟩
      = J.obligations.map fun e => if e.1 = id then (id, ⟨o, .issued signed.id signed⟩) else e :=
    if_pos hmem
  refine ⟨h.history, ?_, Table.nodup_put h.distinct _ _, fun c hc => ?_⟩
  rotate_left
  · have hstored := h.stored c hc
    exact ⟨hstored.request, hstored.accepted, hstored.sequence, hstored.ordering, hstored.action,
      hstored.record⟩
  show (Table.put _ _ _).map _ = _
  rw [hput, List.map_map, ← h.obligations]
  refine List.map_congr_left fun e he => ?_
  by_cases hid : e.1 = id
  · have hentry : e.2 = ⟨o, .pending⟩ :=
      Option.some.inj ((Table.find_of_mem h.distinct (k := e.1) he).symm.trans (hid ▸ hfind))
    simp [hid, hentry]
  · simp [hid]

/-! ## what is not replaced -/

/-- obligations stay, and an issued receipt is never replaced -/
def Retains (J J' : ReceiptJournal ι) : Prop :=
  ∀ {id e}, Table.find J.obligations id = some e →
    ∃ e', Table.find J'.obligations id = some e' ∧ e'.obligation = e.obligation
      ∧ ∀ root receipt, e.processing = .issued root receipt → e' = e

theorem retains_refl (J : ReceiptJournal ι) : Retains J J :=
  fun he => ⟨_, he, rfl, fun _ _ _ => rfl⟩

theorem Retains.trans {J'' : ReceiptJournal ι} (h : Retains J J') (h' : Retains J' J'') :
    Retains J J'' := by
  intro id e he
  obtain ⟨e', he', hsame, hissued⟩ := h he
  obtain ⟨e'', he'', hsame', hissued'⟩ := h' he'
  refine ⟨e'', he'', hsame'.trans hsame, fun root receipt hp => ?_⟩
  have heq := hissued root receipt hp
  exact (hissued' root receipt (heq ▸ hp)).trans heq

theorem retains_append (more : List (ι × Entry ι))
    (h : J'.obligations = J.obligations ++ more) : Retains J J' := by
  intro id e he
  refine ⟨e, ?_, rfl, fun _ _ _ => rfl⟩
  rw [h, Table.find_append, he]
  rfl

theorem retains_mark {id : ι} {signed : AttemptReceipt ι} {a : ReceiptAnswer ι}
    (hwrite : markReceiptIssued id signed J = .write J' a) : Retains J J' := by
  obtain ⟨o, hfind, -, rfl⟩ := mark_write hwrite
  intro id' e he
  by_cases hid : id = id'
  · subst hid
    obtain rfl := Option.some.inj (hfind.symm.trans he)
    refine ⟨⟨o, .issued signed.id signed⟩, ?_, rfl, fun root receipt hp => by cases hp⟩
    show Table.find (Table.put _ _ _) _ = _
    rw [Table.find_put, if_pos rfl]
  · refine ⟨e, ?_, rfl, fun _ _ _ => rfl⟩
    show Table.find (Table.put _ _ _) _ = _
    rw [Table.find_put, if_neg hid, he]

/-- **What a write leaves**: an obligation for its admission if it commits one, and no receipt
replaced. -/
theorem Owed.attempt (h : Owed O K cfg J orderings commits) (hO : Canonical O)
    (hroot : Function.Injective K.obligationRoot) {call : ReceiptCall ι} {a : ReceiptAnswer ι}
    (hwrite : attemptCall O K cfg call J = .write J' a) :
    (∃ orderings', Owed O K cfg J' orderings' (commits ++ (admissionOf (call, a)).toList))
      ∧ Retains J J' := by
  cases call with
  | admitReceipt q =>
    obtain ⟨c, hc, howed, happend⟩ := h.admitReceipt hO hroot hwrite
    rw [hc]
    exact ⟨⟨_, howed⟩, retains_append _ happend⟩
  | dispose input =>
    obtain ⟨ordering, howed, hsame⟩ := h.dispose hO hwrite
    rw [show admissionOf (.dispose input, a) = none from rfl]
    refine ⟨⟨_, by simpa using howed⟩, retains_append [] ?_⟩
    rw [hsame, List.append_nil]
  | prepare id key => cases hwrite
  | mark id signed =>
    rw [show admissionOf (.mark id signed, a) = none from rfl]
    exact ⟨⟨_, by simpa using h.mark hwrite⟩, retains_mark hwrite⟩

theorem Owed.written (h : Owed O K cfg J orderings commits) (hO : Canonical O)
    (hroot : Function.Injective K.obligationRoot)
    {writes : List (ReceiptCall ι × ReceiptAnswer ι)}
    (hwritten : Written (attemptCall O K cfg) J writes J') :
    (∃ orderings', Owed O K cfg J' orderings' (commits ++ admissions writes)) ∧ Retains J J' := by
  induction hwritten with
  | nil => exact ⟨⟨orderings, by simpa [admissions] using h⟩, retains_refl J⟩
  | @snoc writes v v' d a _ hattempt ih =>
    obtain ⟨⟨orderings', howed⟩, hretains⟩ := ih
    obtain ⟨⟨orderings'', howed'⟩, hretains'⟩ := howed.attempt hO hroot hattempt
    refine ⟨⟨orderings'', ?_⟩, hretains.trans hretains'⟩
    have hsnoc : admissions (writes ++ [(d, a)])
        = admissions writes ++ (admissionOf (d, a)).toList := List.filterMap_append
    rw [hsnoc, ← List.append_assoc]
    exact howed'

/-! ## the worker on a pending obligation -/

variable {c : Admission ι}

def KeyPair (K : ReceiptCrypto ι) (privateKey publicKey : ι) : Prop :=
  ∀ r, K.verifyBytes r (K.sign privateKey r) publicKey = true

/-- **The checks before the join pass on what the store keeps.** -/
theorem Owed.prepare_pending (h : Owed O K cfg J orderings commits) (hO : Canonical O)
    (hc : c ∈ commits)
    (hpending : Table.find J.obligations (c.owes K cfg).id = some ⟨c.owes K cfg, .pending⟩)
    (inputOf : Ordering ι → Option (InputBlock ι)) (privateKey : ι) :
    prepareWith O K inputOf (c.owes K cfg).id privateKey J
      = issueReceipt O K (c.owes K cfg) c.candidate c.ordering (inputOf c.ordering) privateKey := by
  have hstored := h.stored c hc
  obtain ⟨hash, record, hhash, hrecord, hordering, hcommand, hcandidate⟩ := hstored.record
  obtain ⟨-, hself, -⟩ := h.history.valid c.ordering hstored.ordering
  have hvalid : (c.owes K cfg).valid O K = true :=
    hstored.accepted.build_valid ⟨_, hself, hO.orderingRef _ _⟩
  have hreplay : validateRecord O record = [] := (h.history.stored hash record hrecord).2.2
  have hid : record.command.candidateId c.candidate = c.candidate.id := by
    rw [hcommand]
    simp [admitCommand, Command.candidateId]
  have htransaction : (c.owes K cfg).transactionOrderingHash = some hash := hhash
  unfold prepareWith
  rw [hpending]
  dsimp only
  rw [hvalid, htransaction]
  simp only [Option.bind_some, hrecord, hcandidate, hreplay, hid, hordering]
  have hauthentic : authenticateCandidate O K c.candidate c.candidate.id
      (c.owes K cfg).receiptAuthorityPublicKey = none := hstored.accepted.authentic
  simp [hauthentic]

/-- **The join on the receipt of a commit** compares three keys of the chain block of the candidate:
with the ordering, and with what the ordering has for its input. -/
theorem receiptChainJoin_eq_none (hvalid : verifyOrdering O ordering = none)
    (haction : ordering.action = some .admitChild) {input : Option (InputBlock ι)} :
    receiptChainJoin O (receiptFromCommit candidate ordering) ordering input = none ↔
      candidate.chain.bind (·.familyId) = ordering.conflictKey
        ∧ candidate.chain.bind (·.sequence) = input.bind (·.sequence)
        ∧ candidate.chain.bind (·.parentReceiptHash) = input.bind (·.parentReceiptHash) := by
  have hbinds : receiptBindsOrdering O (receiptFromCommit candidate ordering) ordering = true := by
    simp [receiptBindsOrdering, receiptFromCommit, hvalid, haction]
  have hchain : ∀ {β : Type _} (f : ChainBlock ι → Option β),
      (∀ b : ChainBlock ι, f { b with admitted := true, transactionOrderingHash := ordering.hash }
        = f b) → f ⟨false, none, none, none, none⟩ = none →
      (receiptFromCommit candidate ordering).chain.bind f = candidate.chain.bind f := by
    intro β f hf hnone
    unfold receiptFromCommit
    show f _ = _
    rw [hf]
    cases candidate.chain with
    | none => exact hnone
    | some b => rfl
  unfold receiptChainJoin
  rw [hchain (·.familyId) (fun _ => rfl) rfl, hchain (·.sequence) (fun _ => rfl) rfl,
    hchain (·.parentReceiptHash) (fun _ => rfl) rfl]
  rw [if_neg (by simp [hbinds])]
  split_ifs with hfamily hsequence hparent
  · exact iff_of_false (by decide) fun h => hfamily h.1.symm
  · exact iff_of_false (by decide) fun h => hsequence h.2.1.symm
  · exact iff_of_false (by decide) fun h => hparent h.2.2.symm
  · exact iff_of_true rfl
      ⟨(not_not.mp hfamily).symm, (not_not.mp hsequence).symm, (not_not.mp hparent).symm⟩

theorem withSignature_unsigned {r : AttemptReceipt ι} (h : r.validator.isSome) (s : ι) :
    (r.withSignature s).unsigned = r.unsigned := by
  obtain ⟨v, hv⟩ := Option.isSome_iff_exists.mp h
  simp [AttemptReceipt.withSignature, AttemptReceipt.unsigned, hv]

theorem signedBy_verifies {r : AttemptReceipt ι} (hvalidator : r.validator.isSome)
    (hschema : r.schemaOf = .v1) {privateKey publicKey : ι} (hkey : KeyPair K privateKey publicKey) :
    verifyReceiptSignature K (signedBy K false r privateKey) (some publicKey) = none := by
  have hunsigned : (signedBy K false r privateKey).unsigned = r.unsigned :=
    withSignature_unsigned hvalidator _
  have hsignature : (signedBy K false r privateKey).signature
      = some ⟨true, some (K.sign privateKey r.unsigned)⟩ := rfl
  have hschema' : (signedBy K false r privateKey).schemaOf = .v1 := hschema
  have hid : (signedBy K false r privateKey).id
      = some (receiptHash K false (signedBy K false r privateKey)) := rfl
  unfold verifyReceiptSignature
  rw [hsignature]
  simp [hschema', hid, hunsigned, hkey r.unsigned]

theorem issueReceipt_eq (haccepted : Accepted O K cfg.receiptPublicHex c.candidate)
    {privateKey publicKey : ι} (hpublic : cfg.receiptPublicHex = some publicKey)
    (hkey : KeyPair K privateKey publicKey) (input : Option (InputBlock ι)) :
    issueReceipt O K (c.owes K cfg) c.candidate c.ordering input privateKey
      = match receiptChainJoin O (receiptFromCommit c.candidate c.ordering) c.ordering input with
        | some reason => .joinInvalid reason
        | none => .signed (signedBy K false (receiptFromCommit c.candidate c.ordering) privateKey) := by
  have hvalidator := haccepted.validator c.ordering
  have hschema : (receiptFromCommit c.candidate c.ordering).schemaOf = .v1 := haccepted.schemaOf
  have howed : (c.owes K cfg).receiptSchema = .v1 := haccepted.schemaOf
  have hfrozen : (c.owes K cfg).receiptAuthorityPublicKey = some publicKey := hpublic
  unfold issueReceipt
  dsimp only
  cases receiptChainJoin O (receiptFromCommit c.candidate c.ordering) c.ordering input with
  | some reason => rfl
  | none => simp [signReceipt, howed, hfrozen, signedBy_verifies hvalidator hschema hkey]

/-! ## discharging -/

/-- the candidate states the committed family id, sequence and parent in its chain block -/
structure Admission.States (cfg : ReceiptConfig ι) (c : Admission ι) : Prop where
  family : c.candidate.chain.bind (·.familyId) = some cfg.familyId
  sequence : c.candidate.chain.bind (·.sequence) = c.request.sequence.map Sum.inl
  parent : c.candidate.chain.bind (·.parentReceiptHash) = c.request.parentReceiptHash

/-- the candidate states the family id, and neither a sequence nor a parent -/
structure Admission.Joins (cfg : ReceiptConfig ι) (c : Admission ι) : Prop where
  family : c.candidate.chain.bind (·.familyId) = some cfg.familyId
  sequence : c.candidate.chain.bind (·.sequence) = none
  parent : c.candidate.chain.bind (·.parentReceiptHash) = none

/-- the worker issues a receipt that verifies under the frozen key and commits the ordering -/
def Discharges (O : OrderingRoots ι) (K : ReceiptCrypto ι) (cfg : ReceiptConfig ι)
    (J : ReceiptJournal ι) (c : Admission ι) (privateKey : ι) : Prop :=
  ∃ signed J', reconstruct O K (c.owes K cfg).id privateKey J
      = .write J' (.issued ⟨c.owes K cfg, .issued signed.id signed⟩)
    ∧ Table.find J'.obligations (c.owes K cfg).id
      = some ⟨c.owes K cfg, .issued signed.id signed⟩
    ∧ verifyReceiptSignature K signed (c.owes K cfg).receiptAuthorityPublicKey = none
    ∧ signed.chain.bind (·.transactionOrderingHash)
      = (c.owes K cfg).transactionOrderingHash

theorem reconstruct_signed {privateKey : ι} {signed : AttemptReceipt ι}
    (hpending : Table.find J.obligations (c.owes K cfg).id = some ⟨c.owes K cfg, .pending⟩)
    (hprepare : prepare O K (c.owes K cfg).id privateKey J = .signed signed) :
    reconstruct O K (c.owes K cfg).id privateKey J
      = .write
        { J with
          obligations := Table.put J.obligations (c.owes K cfg).id
            ⟨c.owes K cfg, .issued signed.id signed⟩ }
        (.issued ⟨c.owes K cfg, .issued signed.id signed⟩) := by
  unfold reconstruct
  rw [hprepare]
  dsimp only
  unfold markReceiptIssued
  rw [hpending]

/-- **The worker discharges a pending obligation exactly when the candidate states the family id,
and neither a sequence nor a parent.** -/
theorem Owed.discharges_iff (h : Owed O K cfg J orderings commits) (hO : Canonical O)
    (hc : c ∈ commits)
    (hpending : Table.find J.obligations (c.owes K cfg).id = some ⟨c.owes K cfg, .pending⟩)
    {privateKey publicKey : ι} (hpublic : cfg.receiptPublicHex = some publicKey)
    (hkey : KeyPair K privateKey publicKey) :
    Discharges O K cfg J c privateKey ↔ c.Joins cfg := by
  have hstored := h.stored c hc
  obtain ⟨hvalid, hself, hfamily⟩ := h.history.valid c.ordering hstored.ordering
  have hprepare : prepare O K (c.owes K cfg).id privateKey J = _ :=
    (h.prepare_pending hO hc hpending Ordering.input privateKey).trans
      (issueReceipt_eq hstored.accepted hpublic hkey _)
  rw [Ordering.input_eq_none] at hprepare
  have hjoin : receiptChainJoin O (receiptFromCommit c.candidate c.ordering) c.ordering none = none
      ↔ _ := receiptChainJoin_eq_none hvalid hstored.action
  constructor
  · rintro ⟨signed, J', hreconstruct, -, -, -⟩
    cases hreason : receiptChainJoin O (receiptFromCommit c.candidate c.ordering) c.ordering none with
    | some reason =>
      rw [hreason] at hprepare
      unfold reconstruct at hreconstruct
      rw [hprepare] at hreconstruct
      cases hreconstruct
    | none =>
      obtain ⟨hfamily', hsequence, hparent⟩ := hjoin.mp hreason
      exact ⟨hfamily'.trans hfamily, hsequence, hparent⟩
  · intro hjoins
    rw [hjoin.mpr ⟨hjoins.family.trans hfamily.symm, hjoins.sequence, hjoins.parent⟩] at hprepare
    have hvalidator := hstored.accepted.validator c.ordering
    refine ⟨_, _, reconstruct_signed hpending hprepare, ?_, ?_, rfl⟩
    · rw [Table.find_put, if_pos rfl]
    · have hfrozen : (c.owes K cfg).receiptAuthorityPublicKey = some publicKey := hpublic
      rw [hfrozen]
      exact signedBy_verifies hvalidator hstored.accepted.schemaOf hkey

theorem Owed.not_joins (h : Owed O K cfg J orderings commits) (hc : c ∈ commits)
    (hstates : c.States cfg) : ¬ c.Joins cfg := by
  intro hjoins
  have hsequence := hstates.sequence
  rw [hjoins.sequence] at hsequence
  exact (h.stored c hc).sequence (Option.map_eq_none_iff.mp hsequence.symm)

/-! ## every interleaving -/

variable {κ : Type*} [DecidableEq κ]

/-- the cell after the moves of any number of clients -/
def cellAfter (O : OrderingRoots ι) (K : ReceiptCrypto ι) (cfg : ReceiptConfig ι)
    (moves : List (Callers.Move κ (ReceiptCall ι))) :
    Cell (ReceiptJournal ι) κ (ReceiptCall ι) (ReceiptAnswer ι) :=
  (Cell.start ReceiptJournal.empty).after (attemptCall O K cfg) moves

theorem linear_cellAfter (moves : List (Callers.Move κ (ReceiptCall ι))) :
    Callers.Linear (attemptCall O K cfg) ReceiptJournal.empty (cellAfter O K cfg moves) :=
  linear_start.after moves

theorem owed_cellAfter (hO : Canonical O) (hroot : Function.Injective K.obligationRoot)
    (moves : List (Callers.Move κ (ReceiptCall ι))) :
    ∃ orderings, Owed O K cfg (cellAfter O K cfg moves).value orderings
      (admissions (cellAfter O K cfg moves).writes) := by
  simpa using (owed_empty.written hO hroot (linear_cellAfter moves).written).1

/-- what holds at a point of an interleaving, and at every later one -/
structure Receipted (O : OrderingRoots ι) (K : ReceiptCrypto ι) (cfg : ReceiptConfig ι)
    (privateKey : ι) (c c' : Cell (ReceiptJournal ι) κ (ReceiptCall ι) (ReceiptAnswer ι)) :
    Prop where
  obligations : c.value.obligations.map (fun e => (e.1, e.2.obligation))
    = (admissions c.writes).map fun m => ((m.owes K cfg).id, m.owes K cfg)
  distinct : (c.value.obligations.map Prod.fst).Nodup
  pending : ∀ q J' a, attemptCall O K cfg (.admitReceipt q) c.value = .write J' a →
    ∃ m : Admission ι, admissionOf (.admitReceipt q, a) = some m
      ∧ J'.obligations = c.value.obligations ++ [((m.owes K cfg).id, ⟨m.owes K cfg, .pending⟩)]
  retained : Retains c.value c'.value
  discharged : ∀ m ∈ admissions c.writes,
    Table.find c.value.obligations (m.owes K cfg).id = some ⟨m.owes K cfg, .pending⟩ →
    (Discharges O K cfg c.value m privateKey ↔ m.Joins cfg)
  stated : ∀ m ∈ admissions c.writes, m.States cfg →
    Table.find c.value.obligations (m.owes K cfg).id = some ⟨m.owes K cfg, .pending⟩ →
    ¬ Discharges O K cfg c.value m privateKey

/-- **Every admission owes one receipt, no receipt is replaced, and the worker discharges an
obligation exactly when the candidate states neither its sequence nor its parent.** -/
theorem receipts_owed (hO : Canonical O) (hroot : Function.Injective K.obligationRoot)
    (cfg : ReceiptConfig ι) {privateKey publicKey : ι}
    (hpublic : cfg.receiptPublicHex = some publicKey) (hkey : KeyPair K privateKey publicKey)
    (earlier later : List (Callers.Move κ (ReceiptCall ι))) :
    Receipted O K cfg privateKey (cellAfter O K cfg earlier)
      ((cellAfter O K cfg earlier).after (attemptCall O K cfg) later) := by
  have hlinear : Callers.Linear (attemptCall O K cfg) ReceiptJournal.empty (cellAfter O K cfg earlier) :=
    linear_cellAfter earlier
  obtain ⟨orderings, howed⟩ :
      ∃ orderings, Owed O K cfg (cellAfter O K cfg earlier).value orderings
        (admissions (cellAfter O K cfg earlier).writes) := owed_cellAfter hO hroot earlier
  have hlater : Later (fun _ => True) (cellAfter O K cfg earlier)
      ((cellAfter O K cfg earlier).after (attemptCall O K cfg) later) :=
    later_after (fun _ => trivial) (later_refl fun _ _ _ => trivial) later
  obtain ⟨rest, hrest, -⟩ := hlater.more
  refine ⟨howed.obligations, howed.distinct, ?_, ?_, ?_, ?_⟩
  · intro q J' a hwrite
    obtain ⟨m, hm, -, happend⟩ := howed.admitReceipt hO hroot hwrite
    exact ⟨m, hm, happend⟩
  · exact (howed.written hO hroot (hlinear.between (hlinear.after later) hrest)).2
  · intro m hm hpending
    exact howed.discharges_iff hO hm hpending hpublic hkey
  · intro m hm hstates hpending hdischarges
    exact howed.not_joins hm hstates
      ((howed.discharges_iff hO hm hpending hpublic hkey).mp hdischarges)

end

/-! ## one admission -/

deriving instance Countable for ReceiptSchema
deriving instance Countable for ObligationBody

/-- one key pair, whose keys are the same number, and an injective hash of obligations -/
noncomputable def numberCrypto : ReceiptCrypto ℕ where
  receiptRoot _ := 7
  receiptRootV2 _ := 8
  sign privateKey _ := privateKey
  verifyBytes _ signature publicKey := signature = publicKey
  obligationRoot := Classical.choose (exists_injective_nat (ObligationBody ℕ))

def receiptConfig : ReceiptConfig ℕ where
  toConfig := plainConfig
  receiptPublicHex := some 3

def sampleRoot : Option (RootEntry ℕ) := some ⟨some 1, some .verified, some 1⟩

/-- it is signed, and states the family, the first sequence and no parent -/
def statedCandidate : AttemptReceipt ℕ where
  id := some 7
  outcome := some .rejected
  finality := some .final
  resubmissionEligibility := some .eligible
  lifecycleStatus := some .active
  schema := some .v1
  submittedBundleRoot := some 1
  attemptSubjectRoot := none
  roots := some ⟨sampleRoot, sampleRoot, sampleRoot, sampleRoot⟩
  validator := some ⟨some 1, some 2, some ⟨true, some 3⟩⟩
  chain := some ⟨true, some 0, some (.inl 1), none, none⟩
  other := none

def statedRequest : AdmitRequest ℕ where
  candidateAttemptReceipt := some statedCandidate
  parentReceiptHash := none
  idempotencyKey := none
  basisRoot := some 4
  sequence := some 1
  expectedChainVersion := none

def statedMoves : List (Callers.Move ℕ (ReceiptCall ℕ)) :=
  [.call 0 (.admitReceipt statedRequest), .turn 0, .turn 0]

theorem numberCrypto_pair : KeyPair numberCrypto 3 3 := by
  intro r
  simp [numberCrypto]

theorem numberCrypto_injective : Function.Injective numberCrypto.obligationRoot :=
  Classical.choose_spec (exists_injective_nat (ObligationBody ℕ))

theorem receipts_owed_stated :
    Receipted countedRoots numberCrypto receiptConfig 3
      (cellAfter countedRoots numberCrypto receiptConfig statedMoves)
      ((cellAfter countedRoots numberCrypto receiptConfig statedMoves).after
        (attemptCall countedRoots numberCrypto receiptConfig) []) :=
  receipts_owed countedRoots_canonical numberCrypto_injective receiptConfig rfl numberCrypto_pair
    statedMoves []

theorem stated_refusal : admitRefusal countedRoots numberCrypto (some 3) statedCandidate = none := by
  simp [admitRefusal, validReceiptShape, commonShape, validRootShape, statedCandidate, sampleRoot,
    verifyReceiptSignature, AttemptReceipt.signature, AttemptReceipt.schemaOf, receiptHash,
    numberCrypto]

/-- the admission is committed, and its pending obligation is not discharged -/
theorem stated_not_discharged :
    ¬ ∀ (moves : List (Callers.Move ℕ (ReceiptCall ℕ))) (m : Admission ℕ),
      m ∈ admissions (cellAfter countedRoots numberCrypto receiptConfig moves).writes →
      m.States receiptConfig →
      Table.find (cellAfter countedRoots numberCrypto receiptConfig moves).value.obligations
          (m.owes numberCrypto receiptConfig).id
        = some ⟨m.owes numberCrypto receiptConfig, .pending⟩ →
      Discharges countedRoots numberCrypto receiptConfig
        (cellAfter countedRoots numberCrypto receiptConfig moves).value m 3 := by
  intro hclaim
  have howed : Owed countedRoots numberCrypto receiptConfig ReceiptJournal.empty [] [] := owed_empty
  obtain ⟨c, hc⟩ : ∃ c, applyAction countedRoots.toRoots
      (ReceiptJournal.empty.journal.state receiptConfig.toConfig)
      (admitCommand statedRequest statedCandidate) = .committed c := ⟨_, rfl⟩
  obtain ⟨J', hwrite⟩ := howed.admit_commits countedRoots_canonical rfl stated_refusal hc
  obtain ⟨m, hm, howed', happend⟩ :=
    howed.admitReceipt countedRoots_canonical numberCrypto_injective hwrite
  have hattempt : attemptCall countedRoots numberCrypto receiptConfig (.admitReceipt statedRequest)
      ReceiptJournal.empty = .write J' _ := hwrite
  have hsolo := Cell.solo (Cell.start ReceiptJournal.empty) 0 rfl hattempt
  have hvalue : (cellAfter countedRoots numberCrypto receiptConfig statedMoves).value = J' :=
    hsolo.1
  have hwrites : (cellAfter countedRoots numberCrypto receiptConfig statedMoves).writes = _ :=
    hsolo.2
  have hrequest : m.request = statedRequest ∧ m.candidate = statedCandidate := by
    cases hm
    exact ⟨rfl, rfl⟩
  have hstates : m.States receiptConfig := by
    constructor <;> simp [hrequest, statedRequest, statedCandidate, receiptConfig, plainConfig]
  have hmem : m ∈ admissions (cellAfter countedRoots numberCrypto receiptConfig statedMoves).writes := by
    rw [hwrites]
    exact List.mem_filterMap.mpr ⟨_, List.mem_singleton_self _, hm⟩
  have hpending : Table.find J'.obligations (m.owes numberCrypto receiptConfig).id
      = some ⟨m.owes numberCrypto receiptConfig, .pending⟩ := by
    rw [happend]
    simp [ReceiptJournal.empty, Table.find_cons]
  have hdischarges := hclaim statedMoves m hmem hstates (by rw [hvalue]; exact hpending)
  rw [hvalue] at hdischarges
  have hlast : m ∈ [] ++ [m] := List.mem_singleton_self m
  exact howed'.not_joins hlast hstates
    ((howed'.discharges_iff countedRoots_canonical hlast hpending rfl numberCrypto_pair).mp
      hdischarges)

end PRF.Resubmission
