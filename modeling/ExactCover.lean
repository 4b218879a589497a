import ExactCover.Board.Basic
import ExactCover.Board.Lemmas
import ExactCover.Board.Placement
import ExactCover.Board.Problem
import ExactCover.Board.Tiling
import ExactCover.Calendar.Date
import ExactCover.Calendar.Tray
import ExactCover.CommandLine.Answer
import ExactCover.CommandLine.Arguments
import ExactCover.Key
import ExactCover.Log
import ExactCover.Main
import ExactCover.Polyomino.Cell
import ExactCover.Polyomino.Lemmas
import ExactCover.Polyomino.Piece
import ExactCover.Polyomino.Shape
import ExactCover.Problem.Basic
import ExactCover.Problem.Error
import ExactCover.Search.Basic
import ExactCover.Search.Event
import ExactCover.Search.Traversal
import ExactCover.Table.Basic
import ExactCover.Table.Coherent
import ExactCover.Table.Lemmas
import ExactCover.Text.Blank
import ExactCover.Text.Describe
import ExactCover.Text.Numeral
import ExactCover.Text.Quoted
import ExactCover.Text.Unprintable
import ExactCover.Proofs.Table.Selection
import ExactCover.Proofs.Problem.Building
import ExactCover.Proofs.Search.Visits
import ExactCover.Proofs.Search.Stack
import ExactCover.Proofs.Search.Step
import ExactCover.Proofs.Search.Calls
import ExactCover.Proofs.Search.Pauses
import ExactCover.Proofs.Search.Lookups
import ExactCover.Proofs.Search.Uses
import ExactCover.Proofs.Search.ExactCovers
import ExactCover.Proofs.Polyomino.Arithmetic
import ExactCover.Proofs.Polyomino.Copies
import ExactCover.Proofs.Polyomino.Translation
import ExactCover.Proofs.Board.Placements
import ExactCover.Proofs.Board.Requirements
import ExactCover.Proofs.Board.Tilings
import ExactCover.Proofs.Problem.Lifetime
import ExactCover.Proofs.Board.Drawing
import ExactCover.Proofs.Board.Reading
import ExactCover.Proofs.Problem.Assembling
import ExactCover.Proofs.Problem.Faults
import ExactCover.Proofs.Problem.Additions
import ExactCover.Proofs.Search.Lockstep
import ExactCover.Proofs.Board.Symmetry
import ExactCover.Proofs.Polyomino.Orbits
import ExactCover.Proofs.Board.Reorienting
import ExactCover.Proofs.Search.Lines
import ExactCover.Proofs.Search.Record
import ExactCover.Proofs.Table.Nesting
import ExactCover.Proofs.Search.Path
import ExactCover.Proofs.Search.Nodes
import ExactCover.Proofs.Search.Effort
import ExactCover.Proofs.Board.Refusals
import ExactCover.Proofs.Board.Enumeration
import ExactCover.Proofs.Board.Tables
import ExactCover.Proofs.Board.Limits
import ExactCover.Proofs.CommandLine.Requests
import ExactCover.Proofs.CommandLine.Answers
import ExactCover.Proofs.Polyomino.Turning
import ExactCover.Proofs.Calendar.Months
