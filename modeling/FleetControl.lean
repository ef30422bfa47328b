import FleetControl.Service
import FleetControl.Record.Fleet
import FleetControl.Record.Deploy
import FleetControl.Record.WorkItem
import FleetControl.Record.Config
import FleetControl.Config.Load
import FleetControl.Json.Printer
import FleetControl.Text.Quoted
import FleetControl.Ulid
import FleetControl.Provider.Provisioning
import FleetControl.Simulation.Script
import FleetControl.Main
import FleetControl.Proofs.Draining
import FleetControl.Proofs.Exclusion
import FleetControl.Proofs.Passing
import FleetControl.Proofs.Rollout
import FleetControl.Proofs.SingleLaunch
import FleetControl.Proofs.Attachment
import FleetControl.Proofs.Stillness
import FleetControl.Proofs.Launching
import FleetControl.Proofs.Racing
import FleetControl.Proofs.Tracking
import FleetControl.Proofs.Disposal
import FleetControl.Proofs.Leaving
import FleetControl.Proofs.Pairing
import FleetControl.Proofs.Teamwork
import FleetControl.Proofs.Adoption
import FleetControl.Proofs.Imaging
import FleetControl.Proofs.Holding
import FleetControl.Proofs.Forgetting
import FleetControl.Proofs.Planning
import FleetControl.Proofs.Revalidation
import FleetControl.Proofs.Interruption
import FleetControl.Proofs.Reporting
import FleetControl.Proofs.Accounting
import FleetControl.Proofs.Releasing
import FleetControl.Proofs.Covering
import FleetControl.Proofs.Lifespan
import FleetControl.Proofs.Budgeting
import FleetControl.Proofs.Settling
import FleetControl.Proofs.Filling
import FleetControl.Proofs.Persistence
import FleetControl.Proofs.Vetting
import FleetControl.Proofs.Overdue
import FleetControl.Proofs.Progression
import FleetControl.Proofs.Mirroring
import FleetControl.Proofs.Paging
import FleetControl.Proofs.Limits
import FleetControl.Proofs.Testimony
import FleetControl.Proofs.Refusal
import FleetControl.Proofs.Remote
import FleetControl.Proofs.Qualifying
import FleetControl.Proofs.Departing
