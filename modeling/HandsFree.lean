import HandsFree.Account
import HandsFree.Address
import HandsFree.AtCommand
import HandsFree.Call
import HandsFree.CallEvent
import HandsFree.CallHold
import HandsFree.CallTable.Basic
import HandsFree.CallTable.Links
import HandsFree.CallTable.Roles
import HandsFree.Coded
import HandsFree.Command
import HandsFree.Config.Basic
import HandsFree.Config.Reader
import HandsFree.Config.Stored
import HandsFree.Debounce
import HandsFree.Json.Fault
import HandsFree.Json.Numeral
import HandsFree.Json.Quoted
import HandsFree.Json.Skip
import HandsFree.Json.Wanted
import HandsFree.LineState
import HandsFree.Listing
import HandsFree.PhoneState
import HandsFree.Service.Basic
import HandsFree.Service.Dispatch
import HandsFree.Text.Blank
import HandsFree.Text.Cut
import HandsFree.Text.Integer
import HandsFree.VideoState
import HandsFree.Proofs.Account
import HandsFree.Proofs.Address
import HandsFree.Proofs.AtCommand
import HandsFree.Proofs.AtCommand.Parts
import HandsFree.Proofs.AtCommand.Render
import HandsFree.Proofs.CallHold
import HandsFree.Proofs.CallHold.Ringing
import HandsFree.Proofs.CallTable.Edits
import HandsFree.Proofs.CallTable.History
import HandsFree.Proofs.CallTable.Joining
import HandsFree.Proofs.CallTable.Links
import HandsFree.Proofs.CallTable.Lookup
import HandsFree.Proofs.CallTable.Order
import HandsFree.Proofs.CallTable.Parts
import HandsFree.Proofs.CallTable.Rank
import HandsFree.Proofs.CallTable.Settled
import HandsFree.Proofs.CallTable.Update
import HandsFree.Proofs.Config.RoundTrip
import HandsFree.Proofs.Debounce
import HandsFree.Proofs.Debounce.Burst
import HandsFree.Proofs.Debounce.HalfWritten
import HandsFree.Proofs.Json.Grammar
import HandsFree.Proofs.Json.Quoted
import HandsFree.Proofs.Json.Skip
import HandsFree.Proofs.Json.Token
import HandsFree.Proofs.Listing
import HandsFree.Proofs.Listing.Count
import HandsFree.Proofs.Listing.Hidden
import HandsFree.Proofs.Listing.Legs
import HandsFree.Proofs.Listing.Shape
import HandsFree.Proofs.Order
import HandsFree.Proofs.PhoneState
import HandsFree.Proofs.Service.Accounts
import HandsFree.Proofs.Service.Contents
import HandsFree.Proofs.Service.Exits
import HandsFree.Proofs.Service.Handover
import HandsFree.Proofs.Service.Overlap
import HandsFree.Proofs.Service.Queue
import HandsFree.Proofs.Service.Requests
import HandsFree.Proofs.Service.Status
import HandsFree.Proofs.Service.Swap
import HandsFree.Proofs.Service.Target
import HandsFree.Proofs.Service.Tones
import HandsFree.Proofs.Service.Transition
import HandsFree.Proofs.Service.Updates
import HandsFree.Proofs.Service.Wire
import HandsFree.Proofs.Text
import HandsFree.Proofs.TopLevel
import HandsFree.Proofs.Views
