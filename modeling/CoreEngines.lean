import CoreEngines.HostedCore
import CoreEngines.Inspection
import CoreEngines.Text.Quoted
import CoreEngines.Schedule
import CoreEngines.Proofs.Interrupts.Masking
import CoreEngines.Proofs.Admission.Once
import CoreEngines.Proofs.Invariants
import CoreEngines.Proofs.Mailbox.Bursts
import CoreEngines.Proofs.Locks.Reentry
import CoreEngines.Proofs.Entry.OneShot
import CoreEngines.Proofs.Identity.Coherence
import CoreEngines.Proofs.Interrupts.Counting
import CoreEngines.Proofs.Storage.Locals
import CoreEngines.Proofs.Admission.Order
import CoreEngines.Proofs.Mailbox.Independence
import CoreEngines.Proofs.Admission.FailedHandovers
import CoreEngines.Proofs.Conduct.Leftovers
import CoreEngines.Proofs.Identity.Cycle
import CoreEngines.Proofs.Conduct.Aftermath
import CoreEngines.Proofs.Creation.Reserves
import CoreEngines.Proofs.Mailbox.Failures
import CoreEngines.Proofs.Storage.Contents
import CoreEngines.Proofs.Interrupts.Scopes
import CoreEngines.Proofs.Caches.Once
import CoreEngines.Proofs.Interrupts.Privacy
import CoreEngines.Proofs.Succession.Shortcuts
import CoreEngines.Proofs.Identity.Printing
