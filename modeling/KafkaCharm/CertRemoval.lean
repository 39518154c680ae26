import KafkaCharm.TruststoreUpdates

/-! The command that deletes a certificate's file is one text that is split at white space, so an
alias with spaces, as a distinguished name has them, names other files. -/

namespace KafkaCharm

open PyText

/-- `TLSScope`. -/
inductive TlsScope where
  | peer
  | client
  deriving DecidableEq, Repr

/-- `TLSScope.value`. -/
def TlsScope.value : TlsScope → Str
  | .peer => "peer"
  | .client => "client"

/-- `{scope}-truststore.jks`. -/
def TlsScope.truststoreFile (scope : TlsScope) : Str := scope.value ++ "-truststore.jks"

/-- `{scope}-{alias}.pem`. -/
def TlsScope.pemFile (scope : TlsScope) (label : Str) : Str :=
  scope.value ++ "-" ++ label ++ ".pem"

/-- A file of the configuration directory. -/
inductive Content (κ : Type) where
  | truststore (password : Str) (entries : TlsManager.Keystore κ)
  | data (bytes : List UInt8)
  deriving DecidableEq, Repr

/-- The files of the configuration directory, by name. -/
structure ConfDir (κ : Type) where
  files : List (Str × Content κ)
  legal : ∀ name ∈ Dict.keys files, '/' ∉ name
  deriving DecidableEq

/-- The argument is a file name and no option. -/
def IsOperand (arg : Str) : Prop := '/' ∉ arg ∧ arg.head? ≠ some '-'

instance (arg : Str) : Decidable (IsOperand arg) := inferInstanceAs (Decidable (_ ∧ _))

/-- `rm -f`, run in the configuration directory. `removes args` tells which names go from
it with these further arguments; it is `none` where the command fails. -/
structure RmTool where
  removes : List Str → Option (Str → Bool)
  /-- A path removes what its last component names, unless an option to go down into
  directories takes the directory itself. -/
  removes_named : ∀ args gone, removes args = some gone →
    (∀ name, gone name = true → ∃ arg ∈ args, name <:+ arg) ∨ ∀ name, gone name = true
  /-- Arguments that are file names are what goes. -/
  removes_operands : ∀ args gone, removes args = some gone → (∀ arg ∈ args, IsOperand arg) →
    ∀ name, gone name = true ↔ name ∈ args

/-- A truststore without the entry of an alias. -/
def Content.forget {κ : Type} (k : CertTools κ) (label : Str) : Content κ → Content κ
  | .truststore password entries =>
    .truststore password (TlsManager.removeCert k entries label)
  | .data bytes => .data bytes

namespace ConfDir

variable {κ : Type}

def get? (dir : ConfDir κ) (name : Str) : Option (Content κ) := Dict.get? dir.files name

def names (dir : ConfDir κ) : List Str := Dict.keys dir.files

/-- A file of a legal name is written. -/
def write (dir : ConfDir κ) (name : Str) (content : Content κ) (h : '/' ∉ name) : ConfDir κ where
  files := Dict.set dir.files name content
  legal := by
    intro other hother
    rcases Dict.mem_keys_set.mp hother with rfl | hmem
    · exact h
    · exact dir.legal other hmem

/-- Files go from the directory. -/
def without (dir : ConfDir κ) (gone : Str → Bool) : ConfDir κ where
  files := dir.files.filter fun e => !gone e.1
  legal := by
    intro name hname
    obtain ⟨e, he, rfl⟩ := List.mem_map.mp hname
    exact dir.legal e.1 (List.mem_map_of_mem (List.mem_filter.mp he).1)

variable (k : CertTools κ)

theorem slash_notMem_truststoreFile (scope : TlsScope) : '/' ∉ scope.truststoreFile := by
  cases scope <;> decide

/-- `keytool -delete`: what it leaves, or what it prints before it fails. -/
def keytoolDelete (dir : ConfDir κ) (password label : Str) (scope : TlsScope) :
    Except Str (ConfDir κ) :=
  match dir.get? scope.truststoreFile with
  | none => .error ("keytool error: java.lang.Exception: Keystore file does not exist: " ++
      scope.truststoreFile)
  | some (.data _) => .error "keytool error: java.io.IOException: Invalid keystore format"
  | some (.truststore stored entries) =>
    if stored ≠ password then
      .error "keytool error: java.io.IOException: keystore password was incorrect"
    else if k.fold label ∈ Dict.keys entries then
      .ok (dir.write scope.truststoreFile
        (.truststore stored (TlsManager.removeCert k entries label))
        (slash_notMem_truststoreFile scope))
    else .error ("keytool error: java.lang.Exception: Alias <" ++ label ++ "> does not exist")

/-- The command for the file. -/
def rmCommand (scope : TlsScope) (label : Str) : List Str :=
  split ("rm -f " ++ scope.pemFile label)

/-- `TLSManager.remove_cert`; `none` is the error that it raises. -/
def removeCert (rm : RmTool) (password : Str) (dir : ConfDir κ) (label : Str)
    (scope : TlsScope) : Option (ConfDir κ) :=
  match keytoolDelete k dir password label scope with
  | .error stdout => if ("does not exist" : Str) <:+: stdout then some dir else none
  | .ok deleted => (rm.removes ((rmCommand scope label).drop 2)).map deleted.without

/-- After a call, the entry and the file are gone and everything else is as it was. -/
def RemovesExactly (dir dir' : ConfDir κ) (label : Str) (scope : TlsScope) : Prop :=
  ∀ name, dir'.get? name =
    if name = scope.pemFile label then none
    else if name = scope.truststoreFile then (dir.get? name).map (Content.forget k label)
    else dir.get? name

/-- The alias is in the truststore of the scope. -/
def HasEntry (dir : ConfDir κ) (label : Str) (scope : TlsScope) : Prop :=
  ∃ password entries, dir.get? scope.truststoreFile = some (.truststore password entries) ∧
    k.fold label ∈ Dict.keys entries

/-- The alias makes one file name, or the file is not there and the words of its name make
`rm` remove none. An alias that is not in the truststore has no file. -/
def Confined (rm : RmTool) (dir : ConfDir κ) (label : Str) (scope : TlsScope) : Prop :=
  (HasEntry k dir label scope →
    (SpaceFree label ∧ '/' ∉ label) ∨
      (scope.pemFile label ∉ dir.names ∧
        ∀ gone, rm.removes (split (scope.pemFile label)) = some gone →
          ∀ name ∈ dir.names, gone name = false)) ∧
  (¬ HasEntry k dir label scope → scope.pemFile label ∉ dir.names)

variable {k} {rm : RmTool} {dir dir' : ConfDir κ} {password label : Str} {scope : TlsScope}

/-! ## What a call does -/

theorem get?_write (name : Str) (content : Content κ) (h : '/' ∉ name) (other : Str) :
    (dir.write name content h).get? other = if name = other then some content
      else dir.get? other := Dict.get?_set

theorem get?_without (gone : Str → Bool) (name : Str) :
    (dir.without gone).get? name = if gone name then none else dir.get? name := by
  have hfilter := Dict.get?_filter (fun n => !gone n) dir.files name
  unfold without get?
  rw [hfilter]
  cases gone name <;> rfl

theorem mem_names_iff {name : Str} : name ∈ dir.names ↔ dir.get? name ≠ none :=
  Dict.mem_keys_iff

theorem mem_names_of_get? {name : Str} {content : Content κ} (h : dir.get? name = some content) :
    name ∈ dir.names := by
  rw [mem_names_iff, h]
  exact Option.some_ne_none content

theorem get?_of_notMem_names {name : Str} (h : name ∉ dir.names) : dir.get? name = none :=
  not_not.mp fun hsome => h (mem_names_iff.mpr hsome)

theorem rmCommand_eq (scope : TlsScope) (label : Str) :
    rmCommand scope label = "rm".toList :: "-f".toList :: split (scope.pemFile label) := by
  have htext : ("rm -f " : Str) ++ scope.pemFile label =
      "rm".toList ++ ' ' :: ("-f".toList ++ ' ' :: scope.pemFile label) := rfl
  rw [rmCommand, htext, split_append_space, split_append_space]
  rfl

theorem pemFile_ne_truststoreFile : scope.pemFile label ≠ scope.truststoreFile := by
  have hpem : (scope.pemFile label).getLast? = some 'm' := by
    rw [TlsScope.pemFile, List.getLast?_append]
    rfl
  have hstore : scope.truststoreFile.getLast? = some 's' := by
    rw [TlsScope.truststoreFile, List.getLast?_append]
    rfl
  intro h
  rw [h, hstore] at hpem
  exact absurd hpem (by decide)

/-- How `keytool` ends: it misses the alias or the truststore, fails for another reason, or
deletes the entry. -/
theorem keytoolDelete_cases (k : CertTools κ) (dir : ConfDir κ) (password label : Str)
    (scope : TlsScope) :
    (∃ stdout, keytoolDelete k dir password label scope = .error stdout ∧
      (¬ HasEntry k dir label scope ∨ ¬ ("does not exist" : Str) <:+: stdout)) ∨
    ∃ entries, dir.get? scope.truststoreFile = some (.truststore password entries) ∧
      k.fold label ∈ Dict.keys entries ∧
      keytoolDelete k dir password label scope = .ok (dir.write scope.truststoreFile
        (.truststore password (TlsManager.removeCert k entries label))
        (slash_notMem_truststoreFile scope)) := by
  unfold keytoolDelete
  cases hstore : dir.get? scope.truststoreFile with
  | none =>
    refine .inl ⟨_, rfl, .inl ?_⟩
    rintro ⟨_, _, hsome, _⟩
    rw [hstore] at hsome
    cases hsome
  | some content =>
    cases content with
    | data bytes => exact .inl ⟨_, rfl, .inr (by decide +kernel)⟩
    | truststore stored entries =>
      by_cases hpassword : stored ≠ password
      · exact .inl ⟨_, if_pos hpassword, .inr (by decide +kernel)⟩
      · obtain rfl := not_not.mp hpassword
        by_cases hmem : k.fold label ∈ Dict.keys entries
        · exact .inr ⟨entries, rfl, hmem, (if_neg hpassword).trans (if_pos hmem)⟩
        · refine .inl ⟨_, (if_neg hpassword).trans (if_neg hmem), .inl ?_⟩
          rintro ⟨_, _, hsome, hentry⟩
          rw [hstore] at hsome
          cases hsome
          exact hmem hentry

/-- What a call that returns has done: nothing, where the alias or the truststore does not
exist, or both commands. -/
theorem removeCert_cases (h : removeCert k rm password dir label scope = some dir') :
    (¬ HasEntry k dir label scope ∧ dir' = dir) ∨
    ∃ entries gone, dir.get? scope.truststoreFile = some (.truststore password entries) ∧
      k.fold label ∈ Dict.keys entries ∧
      rm.removes (split (scope.pemFile label)) = some gone ∧
      dir' = (dir.write scope.truststoreFile
        (.truststore password (TlsManager.removeCert k entries label))
        (slash_notMem_truststoreFile scope)).without gone := by
  unfold removeCert at h
  rcases keytoolDelete_cases k dir password label scope with
    ⟨stdout, herror, hreason⟩ | ⟨entries, hstore, hmem, hdeleted⟩
  · simp only [herror] at h
    split at h
    · rename_i hmissing
      exact .inl ⟨hreason.resolve_right (not_not.mpr hmissing), (Option.some.inj h).symm⟩
    · cases h
  · simp only [hdeleted, rmCommand_eq, List.drop_succ_cons, List.drop_zero,
      Option.map_eq_some_iff] at h
    obtain ⟨gone, hgone, rfl⟩ := h
    exact .inr ⟨entries, gone, hstore, hmem, hgone, rfl⟩

/-! ## Nothing else is removed -/

theorem removesExactly_of_absent (hnone : ¬ HasEntry k dir label scope) :
    RemovesExactly k dir dir label scope ↔ scope.pemFile label ∉ dir.names := by
  have hforget : (dir.get? scope.truststoreFile).map (Content.forget k label) =
      dir.get? scope.truststoreFile := by
    cases hstore : dir.get? scope.truststoreFile with
    | none => rfl
    | some content =>
      cases content with
      | data bytes => rfl
      | truststore password entries =>
        have hmem : k.fold label ∉ Dict.keys entries :=
          fun hmem => hnone ⟨password, entries, hstore, hmem⟩
        rw [Option.map_some, Content.forget, TlsManager.removeCert, Dict.erase_of_notMem hmem]
  constructor
  · intro h
    have hfile := h (scope.pemFile label)
    rw [if_pos rfl] at hfile
    exact fun hmem => mem_names_iff.mp hmem hfile
  · intro h name
    by_cases hname : name = scope.pemFile label
    · rw [if_pos hname, hname]
      exact get?_of_notMem_names h
    · rw [if_neg hname]
      by_cases hstore : name = scope.truststoreFile
      · rw [if_pos hstore, hstore, hforget]
      · rw [if_neg hstore]

/-- The frame of both commands: apart from the file itself, nothing may go that is there. -/
theorem removesExactly_iff_gone {entries : TlsManager.Keystore κ} {gone : Str → Bool}
    (hstore : dir.get? scope.truststoreFile = some (.truststore password entries)) :
    RemovesExactly k dir ((dir.write scope.truststoreFile
        (.truststore password (TlsManager.removeCert k entries label))
        (slash_notMem_truststoreFile scope)).without gone) label scope ↔
      (∀ name ∈ dir.names, gone name = true → name = scope.pemFile label) ∧
        (scope.pemFile label ∈ dir.names → gone (scope.pemFile label) = true) := by
  have hne : scope.truststoreFile ≠ scope.pemFile label := pemFile_ne_truststoreFile.symm
  constructor
  · intro h
    constructor
    · intro name hmem hgone
      by_contra hother
      have hname := h name
      rw [get?_without, if_pos hgone, if_neg hother] at hname
      split at hname
      · rename_i heq
        rw [heq, hstore] at hname
        cases hname
      · exact mem_names_iff.mp hmem hname.symm
    · intro hmem
      by_contra hstays
      have hfile := h (scope.pemFile label)
      rw [get?_without, if_neg hstays, get?_write, if_neg hne, if_pos rfl] at hfile
      exact mem_names_iff.mp hmem hfile
  · rintro ⟨hothers, hfile⟩ name
    rw [get?_without, get?_write]
    by_cases hname : name = scope.pemFile label
    · rw [if_pos hname, hname, if_neg hne]
      by_cases hmem : scope.pemFile label ∈ dir.names
      · rw [if_pos (hfile hmem)]
      · rw [get?_of_notMem_names hmem, ite_self]
    · rw [if_neg hname]
      by_cases htrust : name = scope.truststoreFile
      · have hstays : ¬ gone scope.truststoreFile = true :=
          fun hgone => hne (hothers _ (mem_names_of_get? hstore) hgone)
        rw [htrust, if_neg hstays, if_pos rfl, if_pos rfl, hstore]
        rfl
      · rw [if_neg htrust, if_neg (Ne.symm htrust)]
        by_cases hmem : name ∈ dir.names
        · rw [if_neg fun hgone => hname (hothers name hmem hgone)]
        · rw [get?_of_notMem_names hmem, ite_self]

theorem spaceFree_pemFile : SpaceFree (scope.pemFile label) ↔ SpaceFree label := by
  have hscope : SpaceFree scope.value := by cases scope <;> decide
  have hdash : SpaceFree ("-" : Str) := by decide
  have hpem : SpaceFree (".pem" : Str) := by decide
  simp only [TlsScope.pemFile, spaceFree_append, hscope, hdash, hpem, and_true, true_and]

theorem slash_mem_pemFile : '/' ∈ scope.pemFile label ↔ '/' ∈ label := by
  have hscope : '/' ∉ scope.value := by cases scope <;> decide
  simp [TlsScope.pemFile, hscope]

theorem pemFile_isOperand (h : '/' ∉ label) : IsOperand (scope.pemFile label) := by
  refine ⟨fun hslash => h (slash_mem_pemFile.mp hslash), ?_⟩
  cases scope <;> exact fun hdash => absurd (Option.some.inj hdash) (by decide)

/-- The words of a name with white space or a slash do not take this file and no other. -/
theorem pemFile_not_taken {gone : Str → Bool}
    (hgone : rm.removes (split (scope.pemFile label)) = some gone)
    (hlabel : ¬ (SpaceFree label ∧ '/' ∉ label))
    (hothers : ∀ name ∈ dir.names, gone name = true → name = scope.pemFile label)
    (hstore : scope.truststoreFile ∈ dir.names) (hfile : gone (scope.pemFile label) = true) :
    scope.pemFile label ∉ dir.names := by
  intro hmem
  rcases rm.removes_named _ _ hgone with hnamed | hall
  · obtain ⟨word, hword, hsuffix⟩ := hnamed _ hfile
    obtain ⟨-, hfree⟩ := mem_split hword
    have hspace : SpaceFree label := spaceFree_pemFile.mp <| hfree.part hsuffix.isInfix
    exact hlabel ⟨hspace, fun hslash => dir.legal _ hmem (slash_mem_pemFile.mpr hslash)⟩
  · exact pemFile_ne_truststoreFile (hothers _ hstore (hall _)).symm

/-- A call that returns removes the entry and the file and nothing else exactly if the
alias is confined. -/
theorem removeCert_exact_iff (k : CertTools κ) (rm : RmTool) (password : Str)
    (dir dir' : ConfDir κ) (label : Str) (scope : TlsScope)
    (h : removeCert k rm password dir label scope = some dir') :
    RemovesExactly k dir dir' label scope ↔ Confined k rm dir label scope := by
  rcases removeCert_cases h with ⟨hnone, rfl⟩ | ⟨entries, gone, hstore, hentry, hgone, rfl⟩
  · rw [removesExactly_of_absent hnone]
    exact ⟨fun hfile => ⟨fun hsome => absurd hsome hnone, fun _ => hfile⟩,
      fun hconfined => hconfined.2 hnone⟩
  · have hsome : HasEntry k dir label scope := ⟨password, entries, hstore, hentry⟩
    have htrust : scope.truststoreFile ∈ dir.names := mem_names_of_get? hstore
    rw [removesExactly_iff_gone hstore]
    constructor
    · rintro ⟨hothers, hfile⟩
      refine ⟨fun _ => ?_, fun hnone => absurd hsome hnone⟩
      by_cases hlabel : SpaceFree label ∧ '/' ∉ label
      · exact .inl hlabel
      · have hmissing : scope.pemFile label ∉ dir.names := fun hmem =>
          pemFile_not_taken hgone hlabel hothers htrust (hfile hmem) hmem
        refine .inr ⟨hmissing, fun gone' hgone' name hname => ?_⟩
        obtain rfl := Option.some.inj (hgone.symm.trans hgone')
        by_contra htaken
        have hname' := hothers name hname (by simpa using htaken)
        exact hmissing (hname' ▸ hname)
    · rintro ⟨hconfined, -⟩
      rcases hconfined hsome with ⟨hspace, hslash⟩ | ⟨hmissing, hnone⟩
      · have hwords : split (scope.pemFile label) = [scope.pemFile label] := by
          apply split_word _ (spaceFree_pemFile.mpr hspace)
          cases scope <;> exact List.cons_ne_nil _ _
        have htakes : ∀ name, gone name = true ↔ name = scope.pemFile label := by
          intro name
          rw [hwords] at hgone
          rw [rm.removes_operands _ _ hgone (by simpa using pemFile_isOperand hslash),
            List.mem_singleton]
        exact ⟨fun name _ => (htakes name).mp, fun _ => (htakes _).mpr rfl⟩
      · refine ⟨fun name hname htaken => ?_, fun hmem => absurd hmem hmissing⟩
        rw [hnone gone hgone name hname] at htaken
        cases htaken

/-- `rm` on arguments that are file names. -/
def operandRm : RmTool where
  removes args := if ∀ arg ∈ args, IsOperand arg then some fun name => args.contains name else none
  removes_named := by
    intro args gone h
    split at h
    · obtain rfl := Option.some.inj h
      exact .inl fun name hname => ⟨name, by simpa using hname, List.suffix_refl name⟩
    · cases h
  removes_operands := by
    intro args gone h hargs name
    rw [if_pos hargs] at h
    obtain rfl := Option.some.inj h
    exact List.contains_iff_mem

/-- The truststore and the private key of the client scope, and the certificate of an alias. -/
def sampleDir (label : Str) (h : '/' ∉ label) : ConfDir SampleCert where
  files :=
    [(TlsScope.client.truststoreFile,
        .truststore "changeit" [(SampleCert.tools.fold label, ⟨.root, TlsManager.sampleDate⟩)]),
      ("client-server.key", .data [0x2D]),
      (TlsScope.client.pemFile label, .data [0x2E])]
  legal := by
    have hfile : '/' ∉ TlsScope.client.pemFile label := fun hslash => h (slash_mem_pemFile.mp hslash)
    simp only [Dict.keys, List.map_cons, List.map_nil, List.forall_mem_cons, List.not_mem_nil,
      false_imp_iff, implies_true, and_true]
    exact ⟨by decide, by decide, hfile⟩

/-- The alias of a client. -/
def plainAlias : Str := ['a', 'p', 'p']

theorem removeCert_plain_alias :
    ∃ dir', removeCert SampleCert.tools operandRm "changeit" (sampleDir plainAlias (by decide))
        plainAlias .client = some dir' ∧
      RemovesExactly SampleCert.tools (sampleDir plainAlias (by decide)) dir' plainAlias
        .client := by
  refine ⟨_, rfl, (removeCert_exact_iff _ operandRm "changeit" _ _ _ _ rfl).mpr ?_⟩
  have hentry : HasEntry SampleCert.tools (sampleDir plainAlias (by decide)) plainAlias .client :=
    ⟨_, _, rfl, by decide⟩
  exact ⟨fun _ => .inl ⟨by decide, by decide⟩, fun hnone => absurd hentry hnone⟩

/-- A distinguished name in which a word is the name of a file. -/
def spacedAlias : Str := "CN=ca client-server.key ca"

theorem removeCert_takes_private_key :
    ∃ dir', removeCert SampleCert.tools operandRm "changeit" (sampleDir spacedAlias (by decide))
        spacedAlias .client = some dir' ∧
      ¬ RemovesExactly SampleCert.tools (sampleDir spacedAlias (by decide)) dir' spacedAlias
        .client ∧
      dir'.get? "client-server.key" = none ∧
      dir'.get? (TlsScope.client.pemFile spacedAlias) = some (.data [0x2E]) := by
  refine ⟨_, rfl, fun h => ?_, by decide +kernel, by decide +kernel⟩
  have hkey := h "client-server.key"
  revert hkey
  decide +kernel

end ConfDir

end KafkaCharm
