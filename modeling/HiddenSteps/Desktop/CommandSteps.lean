import HiddenSteps.Desktop.Commands

/-!
# CommandSteps — what one step of a command can do

`CallStep` lists the possible steps of a command, and `callStep_of_step` is the inversion lemma
that every invariant of the commands is derived from.
-/

namespace HiddenSteps
namespace Desktop

open EventStore PrivacyEngine

/-- The steps that can fail, and when: the gate and the audit log never fail a command. -/
def CallPc.mayFail (o : Outside) : CallPc → Prop
  | .openingGate _ => False
  | .logging _ _ => False
  | .returned _ => False
  | .storingKey _ => o.vaultFault.isSome
  | _ => True

/-- The commands that change the privacy row through a read and a write. -/
def Command.isPrivacy : Command → Bool
  | .setPrivacyLevel _ | .completeOnboarding | .acknowledgePrivacyManifest | .pauseObservation
  | .resumeObservation => true
  | _ => false

/-- The possible steps of a command, by where it stands. -/
inductive CallStep (call : Call) (o : Outside) (shared : Shared) : CallPc → Progress → Prop where
  | failed {pc : CallPc} {message : String} (hpc : pc.mayFail o) :
      CallStep call o shared pc (Call.fail call shared message)
  | providerKeyStored {request : SetAiProviderRequest} {vaultKeyRef : Option String}
      {vault : Vault} (hcommand : call.command = .setAiProvider request)
      (hvault : vault masterKeyEntry = shared.vault masterKeyEntry) :
      CallStep call o shared .start
        (Call.goOn { shared with vault := vault } (.storingProvider request vaultKeyRef))
  | checked {privacyCommand : PrivacyCommand} (hcommand : call.command.isPrivacy = true) :
      CallStep call o shared .start (Call.goOn shared (.readingState privacyCommand))
  | eventsDeleted {eventIds : List Nat} {entry : AuditEntry} {reply : Reply}
      (hcommand : call.command = .deleteEvents eventIds) :
      CallStep call o shared .start
        (Call.goOn (shared.withStore (shared.store.deleteEvents eventIds).2)
          (.logging entry reply))
  | exported {entry : AuditEntry} {reply : Reply} (hcommand : call.command = .exportData) :
      CallStep call o shared .start (Call.goOn shared (.logging entry reply))
  | erased (hcommand : call.command = .deleteAllData) (hstore : o.storeFault = none) :
      CallStep call o shared .start
        { Call.goOn (shared.withStore (shared.store.deleteAllData o.now)) .rekeying with
          effects := [.erased shared.store.eventSeq] }
  | erasedLate {message : String} (hcommand : call.command = .deleteAllData)
      (hstore : o.storeFault = none) :
      CallStep call o shared .start
        { Call.fail call (shared.withStore (shared.store.deleteAllData o.now)) message with
          effects := [.erased shared.store.eventSeq, .returned call.command call.eventSeq false] }
  | statusSet {request : SetRecommendationStatusRequest} {status : RecommendationStatus}
      {reply : Reply} (hcommand : call.command = .setRecommendationStatus request) :
      CallStep call o shared .start
        (Call.finish call (shared.withStore
          (shared.store.setRecommendationStatus request.id status request.dismissalReason)) reply)
  | consentSet {granted : Bool} (hcommand : call.command = .setCloudConsent granted)
      (hstore : o.storeFault = none) :
      CallStep call o shared .start
        (Call.goOn
          (shared.withStore (shared.store.setSetting cloudConsentSettingKey (.bool granted)))
          (.openingGate granted))
  | settingSet {value : Json} {reply : Reply}
      (hcommand : call.command = .updateSettings cloudConsentSettingKey value)
      (hstore : o.storeFault = none) :
      CallStep call o shared .start
        (Call.finish call
          (shared.withStore (shared.store.setSetting cloudConsentSettingKey value)) reply)
  | providerStored {request : SetAiProviderRequest}
      {vaultKeyRef : Option String} :
      CallStep call o shared (.storingProvider request vaultKeyRef)
        (Call.goOn (shared.withStore
          (shared.store.upsertLlmProvider (Call.providerConfig request vaultKeyRef)))
          (.activatingProvider request.id))
  | providerActivated {providerId : String} {store : Store}
      {entry : AuditEntry} {reply : Reply}
      (hstore : shared.store.setActiveLlmProvider providerId = .ok store) :
      CallStep call o shared (.activatingProvider providerId)
        (Call.goOn (shared.withStore store) (.logging entry reply))
  | stateRead {privacyCommand : PrivacyCommand} {current : PrivacyState}
      (hread : shared.store.getPrivacyState = .ok current) :
      CallStep call o shared (.readingState privacyCommand)
        (Call.goOn shared (.writingState privacyCommand current))
  | stateWritten {privacyCommand : PrivacyCommand} {current : PrivacyState}
      {entry : AuditEntry} {reply : Reply} (hstore : o.storeFault = none) :
      CallStep call o shared (.writingState privacyCommand current)
        (Call.goOn
          (shared.withStore (shared.store.setPrivacyState (privacyCommand.apply current o.now)))
          (.logging entry reply))
  | gateOpened {granted : Bool} {entry : AuditEntry} {reply : Reply} :
      CallStep call o shared (.openingGate granted)
        (Call.goOn
          { shared with
            gate :=
              if granted then shared.gate.grantGeneralCloudConsent
              else shared.gate.revokeGeneralCloudConsent }
          (.logging entry reply))
  | rekeyed (hstore : o.storeFault = none) :
      CallStep call o shared .rekeying
        (Call.goOn { shared with database := { shared.database with key := o.freshKey } }
          (.storingKey o.freshKey))
  | rekeyedLate {message : String} (hstore : o.storeFault = none)
      (hlate : o.lateFault = some message) :
      CallStep call o shared .rekeying
        (Call.fail call { shared with database := { shared.database with key := o.freshKey } }
          message)
  | keyStored {key : MasterKey} {reply : Reply} :
      CallStep call o shared (.storingKey key)
        (Call.finish call { shared with vault := shared.vault.set masterKeyEntry key.bytes } reply)
  | logged {entry : AuditEntry} {reply : Reply} {store : Store}
      (hstore : store = shared.store ∨ store = (shared.store.appendAuditEntry entry).2) :
      CallStep call o shared (.logging entry reply)
        (Call.finish call (shared.withStore store) reply)

section Inversion

variable {policy : EnterprisePolicy} {call : Call} {o : Outside} {shared : Shared}

/-- A guarded step fails without a trace or goes on. -/
theorem callStep_guarded {pc : CallPc} {fault : Option String} {go : Progress}
    (hfail : fault.isSome → pc.mayFail o) (hgo : fault = none → CallStep call o shared pc go) :
    CallStep call o shared pc (Call.guarded call shared fault go) := by
  cases fault with
  | none => exact hgo rfl
  | some message => exact .failed (hfail rfl)

theorem callStep_startStep :
    CallStep call o shared .start (Call.startStep policy call o shared) := by
  have hfail : ∀ fault : Option String, fault.isSome → CallPc.start.mayFail o :=
    fun _ _ => trivial
  rcases call with ⟨command, pc, eventSeq⟩
  cases command with
  | setAiProvider request =>
      simp only [Call.startStep]
      split
      · exact .failed trivial
      · split
        · exact .providerKeyStored rfl rfl
        · -- the api key goes to an entry of its own
          refine callStep_guarded (hfail _) fun _ => .providerKeyStored rfl ?_
          exact Vault.set_ne _ _ (providerKeyEntry_ne_masterKeyEntry _).symm
  | setPrivacyLevel request =>
      simp only [Call.startStep]
      split
      · exact .failed trivial
      · exact .checked rfl
  | completeOnboarding => exact .checked rfl
  | acknowledgePrivacyManifest => exact .checked rfl
  | pauseObservation => exact .checked rfl
  | resumeObservation => exact .checked rfl
  | deleteEvents eventIds => exact callStep_guarded (hfail _) fun _ => .eventsDeleted rfl
  | exportData =>
      apply callStep_guarded (hfail _)
      intro _
      split
      · exact .failed trivial
      · exact .exported rfl
  | deleteAllData =>
      apply callStep_guarded (hfail _)
      intro hstore
      simp only
      -- the transaction is committed even when what follows it fails
      split
      · exact .erasedLate rfl hstore
      · exact .erased rfl hstore
  | setRecommendationStatus request =>
      simp only [Call.startStep]
      split
      · exact .failed trivial
      · exact callStep_guarded (hfail _) fun _ => .statusSet rfl
  | setCloudConsent granted =>
      exact callStep_guarded (hfail _) fun hstore => .consentSet rfl hstore
  | updateSettings key value =>
      simp only [Call.startStep]
      split
      · exact .failed trivial
      · -- the consent is the only setting that may be written this way
        rename_i hcheck
        obtain rfl := key_of_checkSettingKey hcheck
        exact callStep_guarded (hfail _) fun hstore => .settingSet rfl hstore

/-- The inversion of a step of a command. -/
theorem callStep_of_step {progress : Progress} (h : call.step policy o shared = some progress) :
    CallStep call o shared call.pc progress := by
  rcases call with ⟨command, pc, eventSeq⟩
  cases pc with
  | start =>
      cases h
      exact callStep_startStep
  | storingProvider request vaultKeyRef =>
      cases h
      exact callStep_guarded (fun _ => trivial) fun _ => .providerStored
  | activatingProvider providerId =>
      cases h
      refine callStep_guarded (fun _ => trivial) ?_
      intro _
      split
      · exact .failed trivial
      · rename_i hstore
        exact .providerActivated hstore
  | readingState privacyCommand =>
      cases h
      refine callStep_guarded (fun _ => trivial) ?_
      intro _
      split
      · exact .failed trivial
      · rename_i hread
        exact .stateRead hread
  | writingState privacyCommand current =>
      cases h
      exact callStep_guarded (fun _ => trivial) fun hstore => .stateWritten hstore
  | openingGate granted =>
      cases h
      exact .gateOpened
  | rekeying =>
      cases h
      refine callStep_guarded (fun _ => trivial) ?_
      intro hstore
      simp only
      -- the file has its new key before the key is verified
      split
      · rename_i hlate
        exact .rekeyedLate hstore hlate
      · exact .rekeyed hstore
  | storingKey key =>
      cases h
      exact callStep_guarded (fun hfault => hfault) fun _ => .keyStored
  | logging entry reply =>
      cases h
      split
      · exact .logged (Or.inl rfl)
      · exact .logged (Or.inr rfl)
  | returned result => cases h

end Inversion

theorem task_of_callStep {call : Call} {o : Outside} {shared : Shared} {pc : CallPc}
    {progress : Progress} (h : CallStep call o shared pc progress) :
    ∀ e ∈ progress.effects, e.task = .command := by
  cases h <;> simp [Call.fail, Call.goOn, Call.finish, Effect.task]

end Desktop
end HiddenSteps
