import CursorContext.Emitter.Script
import CursorContext.Emitter.Play
import CursorContext.Fetch.Canned
import CursorContext.Fetch.Scripted
import CursorContext.Session
import CursorContext.Uri.Parser
import CursorContext.Workbench
import CursorContext.Proofs.Flow
import CursorContext.Proofs.Quiet
import CursorContext.Proofs.Lookup
import CursorContext.Proofs.Phase
import CursorContext.Proofs.Ages
import CursorContext.Proofs.Jobs
import CursorContext.Proofs.Extends
import CursorContext.Proofs.Agreement
import CursorContext.Proofs.Annals
import CursorContext.Proofs.Coalescing
import CursorContext.Proofs.Cancellation
import CursorContext.Proofs.Detachment
import CursorContext.Proofs.Fetches
import CursorContext.Proofs.Moments
import CursorContext.Proofs.Unattended
import CursorContext.Proofs.Timers
import CursorContext.Proofs.Debounce
import CursorContext.Proofs.Superseded
import CursorContext.Proofs.Counts
import CursorContext.Proofs.Accounts
import CursorContext.Proofs.Release
import CursorContext.Proofs.Plays
import CursorContext.Proofs.Handles
import CursorContext.Proofs.Delivery
import CursorContext.Proofs.Budget
import CursorContext.Proofs.Merging
import CursorContext.Proofs.Places
import CursorContext.Proofs.Lineages
import CursorContext.Proofs.PrintedKeys
import CursorContext.Proofs.Slot
